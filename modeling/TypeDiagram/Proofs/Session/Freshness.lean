import Mathlib.Data.List.Perm.Subperm
import TypeDiagram.Proofs.Geometry
import TypeDiagram.Proofs.Session.Ledger
import TypeDiagram.Proofs.Session.Mirror

/-! # An idle diagram is laid out for what it shows

Whatever changes the view so that it has to be laid out anew makes a frame pending, and the pass
that a frame or the caller starts captures the view as it is. So at any time a frame is pending, or
the newest pass was started for the view as it is now, and if nothing is left to do, that pass was
applied.
-/

namespace TypeDiagram.Session

open Diagram

variable {α : Type} [Coordinate α]

/-- The pass was started for the nodes, the sizes, the number of edges and the direction of the
view. -/
structure Pass.Covers (p : Pass α) (s : Session α) : Prop where
  ids : (p.nodes.map Node.id).Perm (s.nodes.map Node.id)
  sizes : ∀ n ∈ p.nodes, ∀ m ∈ s.nodes, n.id = m.id → sameSize n.size m.size = true
  edges : p.edges.length = s.edges.length
  direction : p.direction = s.options.direction

theorem Pass.Covers.exists_sent {p : Pass α} {s : Session α} (h : p.Covers s) {n : Node α}
    (hn : n ∈ s.nodes) : ∃ sent ∈ p.nodes, sent.id = n.id ∧ sameSize sent.size n.size = true := by
  obtain ⟨sent, hSent, hId⟩ :=
    List.mem_map.mp (h.ids.mem_iff.mpr (List.mem_map_of_mem (f := Node.id) hn))
  exact ⟨sent, hSent, hId, h.sizes sent hSent n hn hId⟩

theorem Pass.Covers.exists_shown {p : Pass α} {s : Session α} (h : p.Covers s) {sent : Node α}
    (hSent : sent ∈ p.nodes) :
    ∃ n ∈ s.nodes, sent.id = n.id ∧ sameSize sent.size n.size = true := by
  obtain ⟨n, hn, hId⟩ :=
    List.mem_map.mp (h.ids.mem_iff.mp (List.mem_map_of_mem (f := Node.id) hSent))
  exact ⟨n, hn, hId.symm, h.sizes sent hSent n hn hId.symm⟩

/-- The pass is applied in the run, and no pass is applied after it. -/
def LastApplied (start : Session α) (ops : List (Operation α)) (p : Pass α) : Prop :=
  ∃ before op after placed, ops = before ++ op :: after ∧
    Applies (start.run before) op p placed ∧
    Throughout (fun s other => ∀ q placed, ¬ Applies s other q placed)
      (start.run (before ++ [op])) after

theorem lastApplied_of_applies {start : Session α} {ops : List (Operation α)} {op : Operation α}
    {p : Pass α} {placed : List (Node α)} (h : Applies (start.run ops) op p placed) :
    LastApplied start (ops ++ [op]) p :=
  ⟨ops, op, [], placed, rfl, h, trivial⟩

theorem LastApplied.concat {start : Session α} {ops : List (Operation α)} {op : Operation α}
    {p : Pass α} (h : LastApplied start ops p)
    (hNone : ∀ q placed, ¬ Applies (start.run ops) op q placed) :
    LastApplied start (ops ++ [op]) p := by
  obtain ⟨before, earlier, after, placed, rfl, hApplies, hLater⟩ := h
  refine ⟨before, earlier, after ++ [op], placed, by simp, hApplies, ?_⟩
  rw [throughout_concat, ← run_append, ← List.append_cons]
  exact ⟨hLater, hNone⟩

/-! ## What needs no layout -/

theorem needsLayout_eq_false_iff (s : Session α) :
    s.needsLayout = false ↔ s.edges.length = s.edgeCount ∧ s.nodes.length = s.metrics.size ∧
      ∀ n ∈ s.nodes, ∃ m, s.metrics.get? n.id = some m ∧ sameSize m.size n.size = true := by
  simp only [needsLayout, Bool.or_eq_false_iff, bne_eq_false_iff_eq, and_assoc, List.any_eq_false]
  refine and_congr_right fun _ => and_congr_right fun _ => forall₂_congr fun n _ => ?_
  cases s.metrics.get? n.id <;> simp

variable {built : List Model} {past : String → Prop} {s t : Session α} {p : Pass α}

/-- A commit that needs no layout keeps the ids, the sizes and the number of edges. -/
theorem Mirrors.same_of_not_needsLayout (h : Mirrors built past s) {nodes : List (Node α)}
    {edges : List Edge} (hNodup : (nodes.map Node.id).Nodup)
    (hNeeds : needsLayout { s with nodes := nodes, edges := edges } = false) :
    edges.length = s.edges.length ∧ (s.nodes.map Node.id).Perm (nodes.map Node.id) ∧
      ∀ old ∈ s.nodes, ∀ n ∈ nodes, old.id = n.id → sameSize old.size n.size = true := by
  obtain ⟨hEdges, hLength, hSizes⟩ := (needsLayout_eq_false_iff _).mp hNeeds
  have hSize : s.metrics.size = s.nodes.length := by
    rw [OrderedMap.size, h.metrics, List.length_map]
  have hSub : nodes.map Node.id ⊆ s.nodes.map Node.id := by
    intro id hId
    obtain ⟨n, hn, rfl⟩ := List.mem_map.mp hId
    obtain ⟨m, hm, _⟩ := hSizes n hn
    rw [← h.keys_metrics, ← OrderedMap.get?_isSome_iff]
    exact Option.isSome_of_eq_some hm
  have hLe : (s.nodes.map Node.id).length ≤ (nodes.map Node.id).length := by
    rw [List.length_map, List.length_map]
    exact Nat.le_of_eq (hSize.symm.trans hLength.symm)
  refine ⟨hEdges.trans h.edgeCount, ?_, ?_⟩
  · exact ((hNodup.subperm hSub).perm_of_length_le hLe).symm
  · intro old hOld n hn hId
    obtain ⟨m, hm, hSame⟩ := hSizes n hn
    have hOldMetrics := h.get?_metrics hOld
    rw [hId] at hOldMetrics
    rwa [← Option.some.inj (hOldMetrics.symm.trans hm)] at hSame

theorem capture_covers (s : Session α) (hNodup : (s.nodes.map Node.id).Nodup) (token : Nat) :
    (s.capture token).Covers s where
  ids := .refl _
  sizes n hn m hm hId := by
    rw [List.inj_on_of_nodup_map hNodup hn hm hId]
    exact sameSize_refl m.size
  edges := rfl
  direction := rfl

theorem Pass.Covers.of_same (h : p.Covers s) (hStore : t.store = s.store)
    (hDirection : t.options.direction = s.options.direction) : p.Covers t := by
  have hNodes : t.nodes = s.nodes := congrArg Store.nodes hStore
  have hEdges : t.edges = s.edges := congrArg Store.edges hStore
  exact ⟨hNodes ▸ h.ids, hNodes ▸ h.sizes, hEdges ▸ h.edges, hDirection ▸ h.direction⟩

theorem Pass.Covers.of_commit [LawfulCoordinate α] (h : p.Covers s)
    (hMirrors : Mirrors built past s) (hNodup : (t.nodes.map Node.id).Nodup)
    (hNeeds : needsLayout { s with nodes := t.nodes, edges := t.edges } = false)
    (hDirection : t.options.direction = s.options.direction) : p.Covers t := by
  obtain ⟨hEdges, hIds, hSizes⟩ := hMirrors.same_of_not_needsLayout hNodup hNeeds
  refine ⟨h.ids.trans hIds, ?_, h.edges.trans hEdges.symm, h.direction.trans hDirection.symm⟩
  intro n hn m hm hId
  obtain ⟨old, hOld, hOldId⟩ := List.mem_map.mp (hIds.mem_iff.mpr (List.mem_map_of_mem hm))
  exact sameSize_trans (h.sizes n hn old hOld (hId.trans hOldId.symm))
    (hSizes old hOld m hm hOldId)

/-! ## Steps -/

/-- A frame is pending, nothing is shown, or the newest pass was started for what is shown; then it
is in flight, or it is the one that was applied last. -/
def Fresh (last : Pass α → Prop) (s : Session α) : Prop :=
  s.scheduler.pending = true ∨ s.nodes = [] ∨
    ∃ p : Pass α, p.Covers s ∧ p.token = s.passes ∧ (p ∈ s.inFlight ∨ last p ∧ p.token ∉ s.tokens)

variable {last last' : Pass α → Prop}

theorem Fresh.of_same (h : Fresh last s) {clock : Nat} {inFlight : List (Pass α)}
    (hStore : t.store = s.store)
    (hDesk : t.desk = { s.desk with
      scheduler := { s.scheduler with clock := clock }
      inFlight := inFlight })
    (hInFlight : ∀ p ∈ s.inFlight, p.Covers s → p.token = s.passes →
      ∃ q ∈ inFlight, q.Covers s ∧ q.token = s.passes)
    (hLast : ∀ p, last p → p.token = s.passes → p.token ∉ s.tokens → last' p ∧ p.token ∉ t.tokens) :
    Fresh last' t := by
  have hDirection : t.options.direction = s.options.direction := congrArg Desk.direction hDesk
  have hScheduler : t.scheduler = _ := congrArg Desk.scheduler hDesk
  have hPasses : t.passes = s.passes := congrArg Desk.passes hDesk
  have hNow : t.inFlight = inFlight := congrArg Desk.inFlight hDesk
  have hNodes : t.nodes = s.nodes := congrArg Store.nodes hStore
  rcases h with h | h | ⟨p, hCovers, hToken, hIn | ⟨hApplied, hOut⟩⟩
  · left
    rw [hScheduler]
    exact h
  · exact .inr (.inl (hNodes.trans h))
  · obtain ⟨q, hq, hqCovers, hqToken⟩ := hInFlight p hIn hCovers hToken
    exact .inr (.inr ⟨q, hqCovers.of_same hStore hDirection, hqToken.trans hPasses.symm,
      .inl (hNow ▸ hq)⟩)
  · exact .inr (.inr ⟨p, hCovers.of_same hStore hDirection, hToken.trans hPasses.symm,
      .inr (hLast p hApplied hToken hOut)⟩)

theorem Fresh.of_commit [LawfulCoordinate α] (h : Fresh last s) (hMirrors : Mirrors built past s)
    (hNodup : (t.nodes.map Node.id).Nodup) {inFlight : List (Pass α)} {layoutsApplied : Nat}
    {applications : List (Event Notice)}
    (hDesk : t.desk = { (s.commit t.nodes t.edges).desk with
      inFlight := inFlight
      layoutsApplied := layoutsApplied
      applications := applications })
    (hInFlight : ∀ p ∈ s.inFlight, p.token = s.passes →
      p ∈ inFlight ∨ last' p ∧ p.token ∉ t.tokens)
    (hLast : ∀ p, last p → p.token = s.passes → p.token ∉ s.tokens → last' p ∧ p.token ∉ t.tokens) :
    Fresh last' t := by
  rw [commit_desk] at hDesk
  have hDirection : t.options.direction = s.options.direction := congrArg Desk.direction hDesk
  have hScheduler : t.scheduler = if _ then _ else _ := congrArg Desk.scheduler hDesk
  have hPasses : t.passes = s.passes := congrArg Desk.passes hDesk
  have hNow : t.inFlight = inFlight := congrArg Desk.inFlight hDesk
  cases hNeeds : needsLayout { s with nodes := t.nodes, edges := t.edges } with
  | true =>
    rw [hNeeds, if_pos rfl] at hScheduler
    left
    rw [hScheduler]
    rfl
  | false =>
    rw [hNeeds, if_neg Bool.false_ne_true] at hScheduler
    rcases h with h | h | ⟨p, hCovers, hToken, hWhere⟩
    · left
      rw [hScheduler, h]
    · obtain ⟨_, hIds, _⟩ := hMirrors.same_of_not_needsLayout hNodup hNeeds
      rw [h] at hIds
      exact .inr (.inl (List.map_eq_nil_iff.mp hIds.nil_eq.symm))
    · refine .inr (.inr ⟨p, hCovers.of_commit hMirrors hNodup hNeeds hDirection,
        hToken.trans hPasses.symm, ?_⟩)
      rcases hWhere with hIn | ⟨hApplied, hOut⟩
      · exact hNow ▸ hInFlight p hIn hToken
      · exact .inr (hLast p hApplied hToken hOut)

theorem Fresh.of_start (hNodup : (s.nodes.map Node.id).Nodup) (hStore : t.store = s.store)
    {scheduler : FrameScheduler Nat FrameTask}
    (hDesk : t.desk = { s.desk with
      scheduler := scheduler
      passes := s.passes + 1
      inFlight := s.inFlight ++ [s.capture (s.passes + 1)] }) : Fresh last t := by
  have hDirection : t.options.direction = s.options.direction := congrArg Desk.direction hDesk
  have hPasses : t.passes = s.passes + 1 := congrArg Desk.passes hDesk
  have hNow : t.inFlight = _ := congrArg Desk.inFlight hDesk
  refine .inr (.inr ⟨s.capture (s.passes + 1), ?_, hPasses.symm, .inl ?_⟩)
  · exact (capture_covers s hNodup _).of_same hStore hDirection
  · rw [hNow]
    exact List.mem_append_right _ (List.mem_singleton_self _)

theorem exists_mem_begun (hNodup : (s.nodes.map Node.id).Nodup) (token : Nat) (hIn : p ∈ s.inFlight)
    (hCovers : p.Covers s) :
    ∃ q ∈ s.inFlight.map (fun r => if r.token == token then s.capture token else r),
      q.Covers s ∧ q.token = p.token := by
  refine ⟨_, List.mem_map_of_mem hIn, ?_⟩
  by_cases hToken : p.token = token
  · rw [if_pos (beq_iff_eq.mpr hToken)]
    exact ⟨capture_covers s hNodup token, hToken.symm⟩
  · rw [if_neg (mt beq_iff_eq.mp hToken)]
    exact ⟨hCovers, rfl⟩

theorem Idles.ne_of_newest {op : Operation α} {token : Nat} {service : Service α}
    (h : Idles s token service t) (hOp : op = .settle token service) (hFails : ¬ Fails s op)
    (hIn : p ∈ s.inFlight) (hToken : p.token = s.passes) : p.token ≠ token := by
  cases h with
  | absent hAbsent => exact hAbsent p hIn
  | stale q _ _ hStale => exact fun hSame => hStale (hSame.symm.trans hToken)
  | failed q e hq hqToken _ hResult =>
    exact absurd ⟨q, hq, service, e, hqToken ▸ hOp, hResult⟩ hFails

theorem Fresh.step [LawfulCoordinate α] {op : Operation α} (h : Fresh last s)
    (hMirrors : Mirrors built past s) (hLedger : Ledger s) (hWorks : Works s op (s.step op))
    (hNodup : ((s.step op).nodes.map Node.id).Nodup) (hKept : op.givesUp = false)
    (hFails : ¬ Fails s op) (hApplied : ∀ p placed, Applies s op p placed → last' p)
    (hEarlier : ∀ p, last p → (∀ q placed, ¬ Applies s op q placed) → last' p) :
    Fresh last' (s.step op) := by
  have hLast : ∀ p, last p → p.token = s.passes → p.token ∉ s.tokens →
      last' p ∧ p.token ∉ (s.step op).tokens := by
    intro p hp hToken hOut
    refine ⟨hEarlier p hp fun q placed hq => ?_,
      not_mem_tokens_step hWorks (Nat.le_of_eq hToken) (.inl hOut)⟩
    rw [hToken, ← hq.newest] at hOut
    exact hOut hq.token_mem
  have hEnded : ∀ token, token ≤ s.passes → op.ends token = true → token ∉ (s.step op).tokens :=
    fun _ hLe hEnds => not_mem_tokens_step hWorks hLe (.inr hEnds)
  cases hWorks with
  | commits _ hDesk =>
    refine h.of_commit hMirrors hNodup hDesk (fun p hIn _ => .inl ?_) hLast
    rw [commit_eq]
    exact hIn
  | applies q placed hApplies =>
    have hDesk := hApplies.desk
    rw [← hApplies.adjusts.nodes, ← hApplies.adjusts.edges] at hDesk
    apply h.of_commit hMirrors hNodup hDesk _ hLast
    intro p hIn hToken
    have hSame : q.token = p.token := hApplies.newest.trans hToken.symm
    have hFind := hLedger.find?_token hIn
    rw [← hSame, hApplies.inFlight] at hFind
    rw [← Option.some.inj hFind]
    exact .inr ⟨hApplied q placed hApplies,
      hEnded q.token (Nat.le_of_eq hApplies.newest) hApplies.ends⟩
  | requests direction _ _ hDesk =>
    left
    rw [show (s.step op).scheduler = _ from congrArg Desk.scheduler hDesk]
    rfl
  | starts clock _ hStore hDesk => exact .of_start hMirrors.nodup_ids hStore hDesk
  | begins token _ hStore hDesk =>
    apply h.of_same hStore hDesk _ hLast
    intro p hIn hCovers hToken
    rw [← hToken]
    exact exists_mem_begun hMirrors.nodup_ids token hIn hCovers
  | ends token hOp hStore hDesk =>
    apply h.of_same hStore hDesk _ hLast
    intro p hIn hCovers hToken
    rcases hOp with rfl | ⟨service, hOp, hIdles⟩
    · cases hKept
    · have hNe := hIdles.ne_of_newest hOp hFails hIn hToken
      exact ⟨p, List.mem_filter.mpr ⟨hIn, bne_iff_ne.mpr hNe⟩, hCovers, hToken⟩
  | closes hOp =>
    rw [hOp] at hKept
    cases hKept
  | waits clock _ hStore hDesk =>
    exact h.of_same hStore hDesk (fun p hIn hCovers hToken => ⟨p, hIn, hCovers, hToken⟩) hLast

/-! ## Runs -/

theorem fresh_run [LawfulCoordinate α] (options : ViewOptions) (layoutOptions : LayoutOptions)
    (ops : List (Operation α)) (hKept : ∀ op ∈ ops, op.givesUp = false)
    (hNoFailure : Throughout (fun s op => ¬ Fails s op) (create options layoutOptions) ops) :
    Fresh (LastApplied (create options layoutOptions) ops)
      ((create options layoutOptions).run ops) := by
  induction ops using List.reverseRecOn with
  | nil => exact .inr (.inl rfl)
  | append_singleton ops op ih =>
    obtain ⟨hEarlier, hFails⟩ := (throughout_concat _ ops op).mp hNoFailure
    have hFresh := ih (fun other hIn => hKept other (List.mem_append_left _ hIn)) hEarlier
    have hNodup := (mirrors_run options layoutOptions (ops ++ [op])).nodup_ids
    rw [run_concat] at hNodup ⊢
    exact hFresh.step (mirrors_run options layoutOptions ops) (ledger_run options layoutOptions ops)
      (run_works options layoutOptions ops op) hNodup (hKept op (by simp)) hFails
      (fun _ _ hApplies => lastApplied_of_applies hApplies) (fun _ hp hNone => hp.concat hNone)

/-- If no pass fails and none is given up, then an idle diagram that shows anything was laid out,
and the pass that was applied last was started for what is shown. -/
theorem idle_view_is_laid_out [LawfulCoordinate α] (options : ViewOptions)
    (layoutOptions : LayoutOptions) (ops : List (Operation α))
    (hKept : ∀ op ∈ ops, op.givesUp = false)
    (hNoFailure : Throughout (fun s op => ¬ Fails s op) (create options layoutOptions) ops)
    (hIdle : ((create options layoutOptions).run ops).state = .idle)
    (hShown : ((create options layoutOptions).run ops).nodes ≠ []) :
    ∃ p, LastApplied (create options layoutOptions) ops p ∧
      p.Covers ((create options layoutOptions).run ops) := by
  obtain ⟨hPending, hInFlight⟩ := (state_eq_idle_iff _).mp hIdle
  rcases fresh_run options layoutOptions ops hKept hNoFailure with
    hFresh | hEmpty | ⟨p, hCovers, _, hIn | ⟨hLast, _⟩⟩
  · rw [hPending] at hFresh
    cases hFresh
  · exact absurd hEmpty hShown
  · rw [hInFlight] at hIn
    cases hIn
  · exact ⟨p, hLast, hCovers⟩

/-- A size that is measured while the first pass is in flight is laid out by a second one. -/
theorem measured_view_is_laid_out :
    let answer : Service Rat := fun _ => .ok [⟨some (.text "A"), some 7, some 7, none, none⟩]
    let ops := [.setDeclarations ⟨[⟨"A", [], 1⟩], by decide⟩, .frame, .measure "A" ⟨200, 80⟩,
      .settle 1 answer, .frame, .settle 2 answer]
    let start := create ⟨.horizontal, true, .light, true⟩ .standard
    ∃ p, LastApplied start ops p ∧ p.Covers (start.run ops) := by
  intro answer ops start
  have hAnswers : ∀ t token, ¬ Fails (α := Rat) t (.settle token answer) := by
    rintro t _ ⟨p, _, _, e, hOp, hResult⟩
    obtain ⟨_, rfl⟩ := Operation.settle.inj hOp
    cases hResult
  have hIds : (start.run ops).nodes.map Node.id = ["A"] := (mirrors_run _ _ ops).ids.trans rfl
  refine idle_view_is_laid_out _ _ ops ?_ ?_ ?_ ?_
  · simp [ops, Operation.givesUp]
  · refine ⟨?_, ?_, ?_, hAnswers _ 1, ?_, hAnswers _ 2, trivial⟩ <;>
    · rintro ⟨_, _, _, _, hOp, _⟩
      cases hOp
  · decide +kernel
  · intro hNone
    rw [hNone] at hIds
    cases hIds

end TypeDiagram.Session
