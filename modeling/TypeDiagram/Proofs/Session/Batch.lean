import TypeDiagram.Proofs.Session.Recall

/-! # Distinct nodes measured or moved one after another

A measurement and a move change the nodes of one id, so a batch of them, at most one for each id,
changes every node at most once, in whatever order they come.
-/

namespace TypeDiagram.Session

open Diagram

variable {α : Type}

theorem nodes_of_not_mem {s : Session α} {id : String} (h : id ∉ s.nodes.map Node.id)
    (change : Node α → Node α) :
    s.nodes.map (fun n => if n.id == id then change n else n) = s.nodes := by
  conv_rhs => rw [← List.map_id s.nodes]
  refine List.map_congr_left fun n hn => if_neg fun hSame => h ?_
  exact beq_iff_eq.mp hSame ▸ List.mem_map_of_mem hn

variable [Coordinate α]

theorem nodes_measure (s : Session α) (id : String) (size : Size α) :
    (s.step (.measure id size)).nodes =
      s.nodes.map fun n => if n.id == id then { n with size := some size } else n := by
  by_cases hIn : id ∈ s.nodes.map Node.id
  · exact (measure_adjusts hIn size).nodes
  · rw [step, step_measure_of_not_mem hIn, nodes_of_not_mem hIn]

theorem nodes_move (s : Session α) (id : String) (position : Position α) :
    (s.step (.move id position)).nodes =
      s.nodes.map fun n => if n.id == id then { n with position } else n := by
  by_cases hIn : id ∈ s.nodes.map Node.id
  · exact (move_adjusts hIn position).nodes
  · rw [step, step_move_of_not_mem hIn, nodes_of_not_mem hIn]

/-- Operations that each set something of the nodes of one id, at most one for each id, set it for
each node once. -/
theorem nodes_run_batch {β : Type} {op : String → β → Operation α} {f : β → Node α → Node α}
    (hId : ∀ v n, (f v n).id = n.id) (hStep : ∀ (s : Session α) id v,
      (s.step (op id v)).nodes = s.nodes.map fun n => if n.id == id then f v n else n)
    {batch : OrderedMap String β} (h : batch.keys.Nodup) (s : Session α) :
    (s.run (batch.entries.map fun e => op e.1 e.2)).nodes =
      s.nodes.map fun n => (batch.get? n.id).elim n fun v => f v n := by
  obtain ⟨entries⟩ := batch
  induction entries generalizing s with
  | nil => exact (List.map_id _).symm
  | cons e entries ih =>
    obtain ⟨hNew, hRest⟩ := List.nodup_cons.mp h
    change ((s.step (op e.1 e.2)).run _).nodes = _
    rw [ih _ hRest, hStep, List.map_map]
    refine List.map_congr_left fun n _ => ?_
    by_cases hSame : n.id = e.1
    · have hNone : (⟨entries⟩ : OrderedMap String β).get? e.1 = none :=
        (OrderedMap.get?_eq_none_iff _ _).mpr hNew
      simp [OrderedMap.get?_cons, hSame, hId, hNone]
    · simp [OrderedMap.get?_cons, hSame, Ne.symm hSame]

theorem measureAll_eq_run (s : Session α) (extent : Node α → Size α) :
    (s.measureAll extent).1 = s.run (s.nodes.map fun n => .measure n.id (extent n)) := by
  rw [run, List.foldl_map]
  exact (List.foldl_hom Prod.fst fun _ _ => rfl).symm

theorem nodes_measureAll {s : Session α} (hDistinct : (s.nodes.map Node.id).Nodup)
    (extent : Node α → Size α) :
    (s.run (s.nodes.map fun n => .measure n.id (extent n))).nodes =
      s.nodes.map fun n => { n with size := some (extent n) } := by
  let sizes : OrderedMap String (Size α) := ⟨s.nodes.map fun n => (n.id, extent n)⟩
  have hKeys : sizes.keys.Nodup := by
    rw [OrderedMap.keys, List.map_map]
    exact hDistinct
  have hOps : (s.nodes.map fun n => Operation.measure n.id (extent n)) =
      sizes.entries.map fun e => .measure e.1 e.2 := by
    rw [List.map_map]
    rfl
  rw [hOps, nodes_run_batch (f := fun size n => { n with size := some size })
    (fun _ _ => rfl) nodes_measure hKeys]
  refine List.map_congr_left fun n hn => ?_
  rw [OrderedMap.get?_eq_some_of_mem hKeys (List.mem_map_of_mem hn)]
  rfl

theorem nodes_moves {places : OrderedMap String (Position α)} (h : places.keys.Nodup)
    (s : Session α) :
    (s.run (places.entries.map fun e => .move e.1 e.2)).nodes =
      s.nodes.map fun n => { n with position := (places.get? n.id).getD n.position } := by
  rw [nodes_run_batch (f := fun position n => { n with position }) (fun _ _ => rfl) nodes_move h]
  refine List.map_congr_left fun n _ => ?_
  cases places.get? n.id <;> rfl

theorem mem_pinned_moves {moves : List (String × Position α)} {s : Session α}
    (h : ∀ e ∈ moves, e.1 ∈ s.nodes.map Node.id) (id : String) :
    id ∈ (s.run (moves.map fun e => .move e.1 e.2)).pinned ↔
      id ∈ s.pinned ∨ id ∈ moves.map (·.1) := by
  induction moves generalizing s with
  | nil => simp [run]
  | cons e moves ih =>
    obtain ⟨hFirst, hRest⟩ := List.forall_mem_cons.mp h
    have hAdjusts := move_adjusts hFirst e.2
    have hPinned : id ∈ (s.step (.move e.1 e.2)).pinned ↔ id ∈ s.pinned ∨ id = e.1 := by
      rw [hAdjusts.pinned_eq]
      split
      · rename_i hIn
        rw [iff_self_or]
        exact fun hSame => hSame ▸ List.contains_iff_mem.mp hIn
      · rw [List.mem_append, List.mem_singleton]
    change id ∈ ((s.step (.move e.1 e.2)).run _).pinned ↔ _
    rw [ih, hPinned, List.map_cons, List.mem_cons, or_assoc]
    rw [hAdjusts.nodes, hAdjusts.ids]
    exact hRest

/-! ## Options -/

theorem options_setModels (s : Session α) (models : List Model) :
    (s.setModels models).options = s.options := by
  rw [setModels_eq, commit_eq]

theorem options_updateNode (s : Session α) (id : String) (change : Node α → Node α) :
    (s.updateNode id change).1.options = s.options := by
  unfold updateNode
  split
  · rw [commit_eq]
  · rfl

theorem options_move (s : Session α) (id : String) (position : Position α) :
    (s.move id position).1.options = s.options := by
  unfold move
  split
  · exact options_updateNode _ id _
  · rfl

theorem options_run {ops : List (Operation α)}
    (h : ∀ op ∈ ops, ∀ s : Session α, (s.step op).options = s.options) (s : Session α) :
    (s.run ops).options = s.options := by
  induction ops using List.reverseRecOn with
  | nil => rfl
  | append_singleton ops op ih =>
    rw [run_concat, h op (by simp), ih fun other hIn => h other (List.mem_append_left _ hIn)]

end TypeDiagram.Session
