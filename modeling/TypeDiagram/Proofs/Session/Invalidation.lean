import TypeDiagram.Proofs.Session.Mirror
import TypeDiagram.Proofs.Source.DeclaredName

/-! # Which connections are invalidated

A diagram remembers the joined ids of the neighbours of each model of the last source. A new source
is told about exactly those of its models that the last one had with other neighbours, in the order
of the declarations and once each, whether or not the view then needs a layout.
-/

namespace TypeDiagram

/-- Did the model have other neighbours before, or the same ones in another order? -/
def Model.rewired (before : List Model) (m : Model) : Bool :=
  before.any fun old =>
    old.id == m.id && (old.dependantIds != m.dependantIds || old.dependencyIds != m.dependencyIds)

namespace Session

open Diagram

variable {α : Type}

/-- The declared names can be joined and found again. Those of a source text can anyway. -/
def Operation.Joins : Operation α → Prop
  | setDeclarations ds => ∀ d ∈ ds.entries, Joinable d.name
  | _ => True

theorem namesNeighbours_of_models? {op : Operation α} (hJoins : op.Joins) {models : List Model}
    (h : op.models? = some models) : ∀ m ∈ models, m.NamesNeighbours := by
  cases op with
  | setSource source =>
    rw [← Option.some.inj h]
    exact fun m hm =>
      Model.namesNeighbours_ofDeclarations (Source.joinable_declarations source) hm
  | setDeclarations ds =>
    rw [← Option.some.inj h]
    exact fun m hm => Model.namesNeighbours_ofDeclarations hJoins hm
  | _ => cases h

theorem namesNeighbours_lastModels {ops : List (Operation α)} (h : ∀ op ∈ ops, op.Joins) :
    ∀ m ∈ lastModels ops, m.NamesNeighbours := by
  induction ops using List.reverseRecOn with
  | nil => exact fun m hm => absurd hm List.not_mem_nil
  | append_singleton ops op ih =>
    rw [lastModels_concat]
    cases hModels : op.models? with
    | none => exact ih fun other hIn => h other (List.mem_append_left _ hIn)
    | some models => exact namesNeighbours_of_models? (h op (by simp)) hModels

theorem invalidations_eq {before after : List Model} (hBefore : (before.map Model.id).Nodup)
    (hAfter : (after.map Model.id).Nodup) (hNames : ∀ m ∈ before ++ after, m.NamesNeighbours)
    {last : OrderedMap String Model.TopologyHash}
    (hLast : last.entries = before.map fun m => (m.id, m.topologyHash)) :
    invalidations last (topologyOf after) =
      (after.filter (Model.rewired before)).map
      fun m => ⟨.connectionsInvalidated, some m.id, .invalidated⟩ := by
  have hKeys : last.keys = before.map Model.id := by
    rw [OrderedMap.keys, hLast, List.map_map]
    rfl
  unfold invalidations
  rw [entries_topologyOf hAfter, List.filter_map, List.map_map]
  congr 1
  refine List.filter_congr fun m hm => ?_
  dsimp only [Function.comp_apply]
  by_cases hOld : m.id ∈ before.map Model.id
  · obtain ⟨old, hIn, hId⟩ := List.mem_map.mp hOld
    have hGet : last.get? m.id = some old.topologyHash := by
      refine OrderedMap.get?_eq_some_of_mem (hKeys ▸ hBefore) ?_
      rw [hLast, ← hId]
      exact List.mem_map_of_mem hIn
    have hHash := Model.topologyHash_eq_iff (hNames old (List.mem_append_left _ hIn))
      (hNames m (List.mem_append_right _ hm))
    rw [hGet, Bool.eq_iff_iff, bne_iff_ne, ne_eq, hHash, Model.rewired, List.any_eq_true]
    constructor
    · intro hOther
      refine ⟨old, hIn, ?_⟩
      simpa [hId, -not_and, not_and_or] using hOther
    · rintro ⟨same, hSame, hRewired⟩
      simp only [Bool.and_eq_true, beq_iff_eq, Bool.or_eq_true, bne_iff_ne] at hRewired
      rw [← List.inj_on_of_nodup_map hBefore hSame hIn (hRewired.1.trans hId.symm)]
      exact not_and_or.mpr hRewired.2
  · have hNone : last.get? m.id = none := (OrderedMap.get?_eq_none_iff _ _).mpr (hKeys ▸ hOld)
    rw [hNone, eq_comm, Model.rewired, List.any_eq_false]
    rintro old hIn hRewired
    simp only [Bool.and_eq_true, beq_iff_eq] at hRewired
    exact hOld (List.mem_map.mpr ⟨old, hIn, hRewired.1⟩)

variable [Coordinate α]

/-- A new source, at any point of a run, is committed and then tells of each model that the last
source had with other neighbours, once, and of no other one. -/
theorem connections_invalidated_exactly (options : ViewOptions) (layoutOptions : LayoutOptions)
    {ops : List (Operation α)} (hOps : ∀ op ∈ ops, op.Joins) {op : Operation α} (hOp : op.Joins)
    {models : List Model} (hModels : op.models? = some models) :
    let s := (create options layoutOptions).run ops
    let rewired := models.filter (Model.rewired (lastModels ops))
    (s.step op).log = s.log ++
      ⟨.stateCommitted, none, .committed models.length (edgesOf models).length⟩ ::
        rewired.map (fun m => ⟨.connectionsInvalidated, some m.id, .invalidated⟩) ∧
    (rewired.map Model.id).Nodup := by
  intro s rewired
  have h := mirrors_run options layoutOptions ops
  have hDistinct := nodup_of_models?_eq_some hModels
  have hNames : ∀ m ∈ lastModels ops ++ models, m.NamesNeighbours := by
    intro m hm
    rcases List.mem_append.mp hm with hOld | hNew
    · exact namesNeighbours_lastModels hOps m hOld
    · exact namesNeighbours_of_models? hOp hModels m hNew
  have hLength : ((nodesOf models).map s.restored).length = models.length := by
    rw [← List.length_map (f := Node.id), ids_restored, List.length_map]
  refine ⟨?_, hDistinct.sublist (List.filter_sublist.map _)⟩
  rw [step_of_models?_eq_some hModels, setModels_eq, commit_eq,
    invalidations_eq h.distinct hDistinct hNames (by rw [h.topology, h.models]), hLength]
  exact List.append_assoc _ _ _

/-- `A` refers to `B` once more, so both are told about; `C` has the neighbours that it had, and `D`
is new. -/
theorem second_reference_invalidates_both_ends :
    let before : List Declaration :=
      [⟨"A", [⟨"x", "B", .name⟩], 1⟩, ⟨"B", [⟨"y", "A", .name⟩], 2⟩, ⟨"C", [], 3⟩]
    let after : List Declaration :=
      [⟨"D", [], 1⟩, ⟨"C", [], 2⟩, ⟨"B", [⟨"y", "A", .name⟩], 3⟩,
        ⟨"A", [⟨"x", "Map<B, B>", .generic "Map" ["B", "B"]⟩], 4⟩]
    let op : Operation Rat := .setDeclarations ⟨after, by decide⟩
    let s := (create (α := Rat) ⟨.vertical, true, .light, true⟩ .standard).run
      [.setDeclarations ⟨before, by decide⟩, .frame, .move "B" ⟨3, 4⟩]
    (s.step op).log = s.log ++ [⟨.stateCommitted, none, .committed 4 3⟩,
      ⟨.connectionsInvalidated, some "B", .invalidated⟩,
      ⟨.connectionsInvalidated, some "A", .invalidated⟩] := by
  intro before after op s
  have hOps : ∀ op ∈ [.setDeclarations ⟨before, by decide⟩, .frame, .move "B" ⟨3, 4⟩],
      Operation.Joins (α := Rat) op := by
    have hJoins : ∀ d ∈ before, d.name ≠ "" ∧ ':' ∉ d.name.toList := by decide
    intro op hOp
    simp only [List.mem_cons, List.not_mem_nil, or_false] at hOp
    rcases hOp with rfl | rfl | rfl
    · exact hJoins
    · trivial
    · trivial
  have hJoins : ∀ d ∈ after, d.name ≠ "" ∧ ':' ∉ d.name.toList := by decide
  have hOp : op.Joins := hJoins
  have hLog := (connections_invalidated_exactly ⟨.vertical, true, .light, true⟩ .standard hOps hOp
    rfl).1
  have hModels : (Model.ofDeclarations after).length = 4 := by decide +kernel
  have hEdges : (edgesOf (Model.ofDeclarations after)).length = 3 := by decide +kernel
  have hRewired : ((Model.ofDeclarations after).filter
      (Model.rewired (Model.ofDeclarations before))).map Model.id = ["B", "A"] := by decide +kernel
  have hTold : ∀ ms : List Model, ms.map Model.id = ["B", "A"] →
      ms.map (fun m => (⟨.connectionsInvalidated, some m.id, .invalidated⟩ : Event Notice)) =
        [⟨.connectionsInvalidated, some "B", .invalidated⟩,
          ⟨.connectionsInvalidated, some "A", .invalidated⟩] := by
    intro ms hIds
    let told (id : String) : Event Notice := ⟨.connectionsInvalidated, some id, .invalidated⟩
    change ms.map (told ∘ Model.id) = _
    rw [← List.map_map, hIds]
    rfl
  refine hLog.trans (congrArg (s.log ++ ·) (congrArg₂ List.cons ?_ (hTold _ hRewired)))
  rw [hModels, hEdges]

end Session

end TypeDiagram
