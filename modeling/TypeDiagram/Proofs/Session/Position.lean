import TypeDiagram.Proofs.Session.Answer
import TypeDiagram.Proofs.Session.Ledger
import TypeDiagram.Proofs.Session.Recall

/-! # A position comes from the last pass that reached the node

A pass reaches the nodes that it was started for and that are committed when it is applied. A node
that is never moved by hand is not pinned in the view and not seeded in any request, so a pass that
reaches it puts it where it was drawn, and nothing else moves it.
-/

namespace TypeDiagram.Session

open Diagram Layout

variable {α : Type} [Coordinate α]

/-- The step applies the pass, which was started for the node with the given id, and the node is
committed. -/
structure Reaches (id : String) (p : Pass α) (s : Session α) (op : Operation α) : Prop where
  applies : ∃ placed, Applies s op p placed
  captured : id ∈ p.nodes.map Node.id
  committed : id ∈ s.nodes.map Node.id

def placeOf (m : Option (Metrics α)) : Position α := (m.map Metrics.position).getD .offScreen

/-- The last pass of the run that reached the node put it at the given position, if any pass did. -/
def LastPlaced (start : Session α) (ops : List (Operation α)) (id : String) :
    Option (Position α) → Prop
  | some position => ∃ before op p,
      IsLast (fun s other => ∃ q, Reaches id q s other) start ops before op ∧
      Reaches id p (start.run before) op ∧
      Drawn (p.request (start.run before).layoutOptions) id position
  | none => Throughout (fun s other => ¬ ∃ q, Reaches id q s other) start ops

theorem LastPlaced.concat {start : Session α} {ops : List (Operation α)} {id : String}
    {place : Option (Position α)} (h : LastPlaced start ops id place) {op : Operation α}
    (hLast : ¬ ∃ q, Reaches id q (start.run ops) op) : LastPlaced start (ops ++ [op]) id place := by
  cases place with
  | none => exact (throughout_concat start ops op).mpr ⟨h, hLast⟩
  | some position =>
    obtain ⟨before, earlier, p, hBefore, hReaches⟩ := h
    exact ⟨before, earlier, p, hBefore.concat hLast, hReaches⟩

variable {s : Session α} {op : Operation α} {id : String}

theorem Applies.pass_eq {p q : Pass α} {placed placed' : List (Node α)} (h : Applies s op p placed)
    (h' : Applies s op q placed') : p = q := by
  have hFind := h.inFlight
  rw [h.token_eq h', h'.inFlight] at hFind
  exact (Option.some.inj hFind).symm

theorem not_reaches_of_not_applies
    (h : ∀ p placed, Applies s op p placed → id ∉ s.nodes.map Node.id) :
    ¬ ∃ q, Reaches id q s op := by
  rintro ⟨q, hReaches⟩
  obtain ⟨placed, hApplies⟩ := hReaches.applies
  exact h q placed hApplies hReaches.committed

variable (options : ViewOptions) (layoutOptions : LayoutOptions) {ops : List (Operation α)}

theorem not_mem_pinned_run
    (h : Throughout (fun s op => ¬ Moves id s op) (create options layoutOptions) ops) :
    id ∉ ((create options layoutOptions).run ops).pinned := by
  induction ops using List.reverseRecOn with
  | nil => exact List.not_mem_nil
  | append_singleton ops op ih =>
    obtain ⟨hEarlier, hLast⟩ := (throughout_concat _ ops op).mp h
    rw [run_concat]
    exact fun hPinned => (mem_pinned_step hPinned).elim (ih hEarlier) hLast

theorem not_mem_pinned_captured
    (h : Throughout (fun s op => ¬ Moves id s op) (create options layoutOptions) ops)
    {p : Pass α} (hp : p ∈ ((create options layoutOptions).run ops).inFlight) : id ∉ p.pinned := by
  obtain ⟨before, token, ⟨after, rfl⟩, hSame⟩ := captured_run options layoutOptions ops hp
  rw [hSame]
  exact not_mem_pinned_run options layoutOptions ((throughout_append _ before after).mp h).1

/-- A step puts a node that is never moved by hand where a pass that reaches it drew it, or leaves
it. -/
theorem place_step (hMoves : Throughout (fun s op => ¬ Moves id s op)
    (create options layoutOptions) (ops ++ [op])) (hLayered : op.Layered) :
    let s := (create options layoutOptions).run ops
    (∃ p, Reaches id p s op ∧
      Drawn (p.request s.layoutOptions) id (placeOf ((s.step op).remembered? id))) ∨
    (¬ ∃ q, Reaches id q s op) ∧
      placeOf ((s.step op).remembered? id) = placeOf (s.remembered? id) := by
  intro s
  obtain ⟨hEarlier, hLast⟩ := (throughout_concat _ ops op).mp hMoves
  have hNone : (∀ p placed, ¬ Applies s op p placed) → ¬ ∃ q, Reaches id q s op := fun h =>
    not_reaches_of_not_applies fun p placed hApplies => absurd hApplies (h p placed)
  generalize hBefore : s.remembered? id = before
  generalize hAfter : (s.step op).remembered? id = after
  have hRecalls := recalls_run options layoutOptions ops op id
  rw [hBefore, hAfter] at hRecalls
  cases hRecalls with
  | keeps _ _ hApplies => exact .inr ⟨not_reaches_of_not_applies hApplies, rfl⟩
  | begins hOp => exact .inr ⟨hNone (not_applies_of_models? hOp), rfl⟩
  | measures m size hOp =>
    refine .inr ⟨hNone fun p placed hApplies => ?_, rfl⟩
    obtain ⟨service, hSettle, _⟩ := hApplies.settles
    rw [hOp] at hSettle
    cases hSettle
  | moves m position hOp hDone => exact absurd ⟨position, hOp, hDone⟩ hLast
  | merges n p placed hApplies hIn hId =>
    subst hId
    have hFlight : p ∈ s.inFlight := List.mem_of_find?_eq_some hApplies.inFlight
    have hDistinct := nodup_captured_run options layoutOptions ops hFlight
    have hResult := hApplies.layered hLayered
    have hIds := arrange_ids hDistinct hResult
    rcases merged_position hIds (not_mem_pinned_run options layoutOptions hEarlier) with
      ⟨hOut, hSame⟩ | ⟨computed, hComputed, hId, hPosition⟩
    · refine .inr ⟨?_, by rw [hSame]⟩
      rintro ⟨q, hReaches⟩
      obtain ⟨_, hAlso⟩ := hReaches.applies
      exact hOut (hAlso.pass_eq hApplies ▸ hReaches.captured)
    · refine .inl ⟨p, ⟨⟨placed, hApplies⟩, ?_, List.mem_map_of_mem hIn⟩, ?_⟩
      · rw [← hIds, ← hId]
        exact List.mem_map_of_mem hComputed
      · have hSeed := not_mem_pinned_captured options layoutOptions hEarlier hFlight
        change Drawn _ _ (s.merged p placed n).position
        rw [hPosition, ← hId]
        exact drawn_of_arrange hDistinct hResult hComputed (hId ▸ hSeed)

/-! ## Runs -/

theorem lastPlaced_run
    (hMoves : Throughout (fun s op => ¬ Moves id s op) (create options layoutOptions) ops)
    (hLayered : ∀ op ∈ ops, op.Layered) :
    ∃ place, LastPlaced (create options layoutOptions) ops id place ∧
      placeOf (((create options layoutOptions).run ops).remembered? id) =
        place.getD .offScreen := by
  induction ops using List.reverseRecOn with
  | nil => exact ⟨none, trivial, rfl⟩
  | append_singleton ops op ih =>
    obtain ⟨place, hLast, hPlace⟩ := ih ((throughout_concat _ ops op).mp hMoves).1 fun other hIn =>
      hLayered other (List.mem_append_left _ hIn)
    rw [run_concat]
    rcases place_step options layoutOptions hMoves (hLayered op (by simp)) with
      ⟨p, hReaches, hDrawn⟩ | ⟨hNone, hSame⟩
    · exact ⟨some _, ⟨ops, op, p, isLast_of_last ⟨p, hReaches⟩, hReaches, hDrawn⟩, rfl⟩
    · exact ⟨place, hLast.concat hNone, hSame.trans hPlace⟩

theorem place_run_of_not_reached {before after : List (Operation α)}
    (hMoves : Throughout (fun s op => ¬ Moves id s op)
      (create options layoutOptions) (before ++ after))
    (hLayered : ∀ op ∈ before ++ after, op.Layered)
    (hNone : Throughout (fun s op => ¬ ∃ q, Reaches id q s op)
      ((create options layoutOptions).run before) after) :
    placeOf (((create options layoutOptions).run (before ++ after)).remembered? id) =
      placeOf (((create options layoutOptions).run before).remembered? id) := by
  induction after using List.reverseRecOn with
  | nil => rw [List.append_nil]
  | append_singleton after op ih =>
    rw [← List.append_assoc] at hMoves hLayered ⊢
    obtain ⟨hEarlier, hLast⟩ := (throughout_concat _ after op).mp hNone
    rw [← run_append] at hLast
    rw [run_concat]
    rcases place_step options layoutOptions hMoves (hLayered op (by simp)) with
      ⟨p, hReaches, _⟩ | ⟨_, hSame⟩
    · exact absurd ⟨p, hReaches⟩ hLast
    · exact hSame.trans (ih ((throughout_concat _ _ op).mp hMoves).1
        (fun other hIn => hLayered other (List.mem_append_left _ hIn)) hEarlier)

/-- A committed node that was never moved by hand stands where the last pass drew it that was
started for it and was applied while it was committed; without such a pass it stands off the screen.
So a node that goes and returns stands where it stood. -/
theorem unmoved_node_stands_where_drawn (ops : List (Operation α))
    (hLayered : ∀ op ∈ ops, op.Layered) :
    let start := create options layoutOptions
    ∀ n ∈ (start.run ops).nodes, Throughout (fun s op => ¬ Moves n.id s op) start ops →
      ((∃ before op p,
          IsLast (fun s other => ∃ q, Reaches n.id q s other) start ops before op ∧
          Reaches n.id p (start.run before) op ∧
          Drawn (p.request (start.run before).layoutOptions) n.id n.position) ∨
        Throughout (fun s op => ¬ ∃ q, Reaches n.id q s op) start ops ∧ n.position = .offScreen) ∧
      ∀ before after, ops = before ++ after → ∀ m ∈ (start.run before).nodes, m.id = n.id →
        Throughout (fun s op => ¬ ∃ q, Reaches n.id q s op) (start.run before) after →
        n.position = m.position := by
  intro start n hn hMoves
  have hNow : placeOf ((start.run ops).remembered? n.id) = n.position := by
    rw [(mirrors_run options layoutOptions ops).remembered hn]
    rfl
  constructor
  · obtain ⟨place, hLast, hPlace⟩ := lastPlaced_run options layoutOptions hMoves hLayered
    rw [hNow] at hPlace
    cases place with
    | none => exact .inr ⟨hLast, hPlace⟩
    | some position =>
      rw [hPlace]
      exact .inl hLast
  · rintro before after rfl m hm hId hNone
    have hThen : placeOf ((start.run before).remembered? n.id) = m.position := by
      rw [← hId, (mirrors_run options layoutOptions before).remembered hm]
      rfl
    rw [← hNow, ← hThen]
    exact place_run_of_not_reached options layoutOptions hMoves hLayered hNone

/-- The node is drawn while it is committed, then its declaration goes and returns while a pass that
was started for it is in flight and fails. -/
theorem unmoved_node_stands_while_edited :
    let declared : Operation Rat := .setDeclarations ⟨[⟨"A", [], 1⟩], by decide⟩
    let before := [declared, .layoutNow, .settle 1 layeredService]
    let after := [.layoutNow, .setDeclarations ⟨[], List.nodup_nil⟩, declared,
      .settle 2 (failingService "no answer")]
    let start := create ⟨.horizontal, true, .light, true⟩ .standard
    ∃ n ∈ (start.run (before ++ after)).nodes, ∃ m ∈ (start.run before).nodes,
      n.id = "A" ∧ m.id = "A" ∧ n.position = m.position := by
  intro declared before after start
  have hNow : (start.run (before ++ after)).nodes.map Node.id = ["A"] :=
    (mirrors_run _ _ (before ++ after)).ids.trans rfl
  have hThen : (start.run before).nodes.map Node.id = ["A"] :=
    (mirrors_run _ _ before).ids.trans rfl
  obtain ⟨n, hn, hId⟩ := List.mem_map.mp (hNow ▸ List.mem_singleton_self "A")
  obtain ⟨m, hm, hOldId⟩ := List.mem_map.mp (hThen ▸ List.mem_singleton_self "A")
  have hLayered : ∀ op ∈ before ++ after, op.Layered := by
    intro op hOp
    simp only [before, after, List.mem_append, List.mem_cons, List.not_mem_nil, or_false] at hOp
    rcases hOp with (rfl | rfl | rfl) | rfl | rfl | rfl | rfl
    all_goals first
      | exact trivial
      | exact fun _ _ h => h
      | exact fun _ _ h => nomatch h
  refine ⟨n, hn, m, hm, hId, hOldId,
    (unmoved_node_stands_where_drawn _ _ (before ++ after) hLayered n hn ?_).2 before after rfl
      m hm (hOldId.trans hId.symm) ?_⟩
  · refine ⟨?_, ?_, ?_, ?_, ?_, ?_, ?_, trivial⟩ <;>
    · rintro ⟨_, hOp, _⟩
      simp only [declared, reduceCtorEq] at hOp
  · have hSettles : ∀ (s : Session Rat) op, (∃ q, Reaches n.id q s op) → ∃ token service,
        op = .settle token service ∧ service ≠ failingService "no answer" := by
      rintro s op ⟨q, ⟨_, hApplies⟩, _, _⟩
      obtain ⟨service, hOp, hResult⟩ := hApplies.settles
      refine ⟨q.token, service, hOp, ?_⟩
      rintro rfl
      cases hResult
    refine ⟨?_, ?_, ?_, ?_, trivial⟩ <;>
    · intro hReached
      obtain ⟨token, service, hOp, hAnswers⟩ := hSettles _ _ hReached
      simp only [declared, reduceCtorEq, Operation.settle.injEq] at hOp
      try exact hAnswers hOp.2.symm

end TypeDiagram.Session
