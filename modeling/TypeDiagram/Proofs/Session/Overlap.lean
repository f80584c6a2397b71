import TypeDiagram.Proofs.Diagram.Overlap
import TypeDiagram.Proofs.Session.Lull
import TypeDiagram.Proofs.Session.Measurement
import TypeDiagram.Proofs.Session.Postponement
import TypeDiagram.Proofs.Session.Quiescence

/-! # An idle diagram shows no two nodes on top of each other

All that an idle diagram shows was drawn by one pass, for the nodes and the sizes that it shows. The
sizes are those that were measured, so they are not negative, and no node passes for a dummy. So the
pass drew the nodes that are not pinned apart, and they stand where it drew them.
-/

namespace TypeDiagram.Session

open Diagram Layout

variable {α : Type}

namespace Operation

/-- What the operation measures is not negative. -/
def NonNegative : Operation Rat → Prop
  | measure _ size => 0 ≤ size.width ∧ 0 ≤ size.height
  | _ => True

/-- No name that the operation declares begins like that of a dummy. -/
def Undisguised : Operation α → Prop
  | setSource source => ∀ d ∈ Source.declarations source, isDummy d.name = false
  | setDeclarations ds => ∀ d ∈ ds.entries, isDummy d.name = false
  | _ => True

end Operation

theorem not_isDummy_of_models? {op : Operation α} (hOp : op.Undisguised) {models : List Model}
    (h : op.models? = some models) : ∀ id ∈ models.map Model.id, isDummy id = false := by
  cases op with
  | setSource source =>
    rw [← Option.some.inj h, Model.ids_ofDeclarations]
    exact List.forall_mem_map.mpr hOp
  | setDeclarations ds =>
    rw [← Option.some.inj h, Model.ids_ofDeclarations]
    exact List.forall_mem_map.mpr hOp
  | _ => cases h

theorem not_isDummy_lastModels {ops : List (Operation α)} (hOps : ∀ op ∈ ops, op.Undisguised) :
    ∀ id ∈ (lastModels ops).map Model.id, isDummy id = false := by
  induction ops using List.reverseRecOn with
  | nil => exact fun id hId => absurd hId List.not_mem_nil
  | append_singleton ops op ih =>
    rw [lastModels_concat]
    cases hModels : op.models? with
    | none => exact ih fun other hIn => hOps other (List.mem_append_left _ hIn)
    | some models => exact not_isDummy_of_models? (hOps op (by simp)) hModels

variable (options : ViewOptions) (layoutOptions : LayoutOptions) {ops : List (Operation Rat)}

theorem extent_nonneg_run (hLayered : ∀ op ∈ ops, op.Layered) (hOps : ∀ op ∈ ops, op.NonNegative)
    {n : Node Rat} (hn : n ∈ ((create options layoutOptions).run ops).nodes) :
    0 ≤ n.extent.width ∧ 0 ≤ n.extent.height := by
  obtain ⟨size, hLast, hSame⟩ := remembered_size_run options layoutOptions hLayered n.id
  rw [(mirrors_run options layoutOptions ops).remembered hn] at hSame
  have hSize : n.size = size := eq_of_sameSize hSame
  rw [Node.extent, hSize]
  cases size with
  | none => exact ⟨le_refl 0, le_refl 0⟩
  | some size =>
    obtain ⟨before, after, rfl, _⟩ := hLast
    exact hOps (.measure n.id size) (by simp)

/-- Among the nodes of an idle diagram that were not moved by hand, no two overlap, whatever edits,
measurements, moves and passes came before. -/
theorem idle_nodes_do_not_overlap (hSpaced : layoutOptions.Spaced)
    (hOps : ∀ op ∈ ops, op.Layered ∧ op.givesUp = false ∧ op.NonNegative ∧ op.Undisguised)
    (hNoFailure : Throughout (fun s op => ¬ Fails s op) (create options layoutOptions) ops)
    (hIdle : ((create options layoutOptions).run ops).state = .idle) :
    let s := (create options layoutOptions).run ops
    ∀ m ∈ s.nodes, ∀ n ∈ s.nodes, m ≠ n → m.id ∉ s.pinned → n.id ∉ s.pinned → ¬ m.Overlaps n := by
  rintro s m hm n hn hNe hmFree hnFree ⟨point, hIn, hAlso⟩
  have hMirrors := mirrors_run options layoutOptions ops
  have hLayered := fun op hOp => (hOps op hOp).1
  have hNonNegative := fun op hOp => (hOps op hOp).2.2.1
  have hPlain := not_isDummy_lastModels fun op hOp => (hOps op hOp).2.2.2
  rcases idle_view_is_drawn options layoutOptions hLayered (fun op hOp => (hOps op hOp).2.1)
    hNoFailure hIdle with hEmpty | ⟨p, hDraws⟩
  · rw [show s.nodes = [] from hEmpty] at hm
    cases hm
  · obtain ⟨m', hm', hmId, hmSize⟩ := hDraws.covers.exists_sent hm
    obtain ⟨n', hn', hnId, hnSize⟩ := hDraws.covers.exists_sent hn
    obtain ⟨hmSeed, hmDrawn⟩ := hDraws.drawn m hm hmFree
    obtain ⟨hnSeed, hnDrawn⟩ := hDraws.drawn n hn hnFree
    have hIds : m'.id ≠ n'.id := fun hSame =>
      hNe (List.inj_on_of_nodup_map hMirrors.nodup_ids hm hn (hmId.symm.trans (hSame.trans hnId)))
    rw [← extent_eq_of_sameSize hmSize] at hIn
    rw [← extent_eq_of_sameSize hnSize] at hAlso
    rw [← hmId] at hmSeed hmDrawn
    rw [← hnId] at hnSeed hnDrawn
    refine not_overlaps_of_drawn hSpaced hDraws.distinct ?_ ?_ hm' hn' hIds hmSeed hnSeed hmDrawn
      hnDrawn hIn hAlso <;> intro sent hSent <;>
      obtain ⟨shown, hShown, hId, hSize⟩ := hDraws.covers.exists_shown hSent
    · rw [hId]
      exact hPlain shown.id (hMirrors.ids ▸ List.mem_map_of_mem hShown)
    · rw [extent_eq_of_sameSize hSize]
      exact extent_nonneg_run options layoutOptions hLayered hNonNegative hShown

/-- Two nodes are laid out beside a third one that was moved by hand. One of them is measured anew
while the first pass is in flight, which settles after the second one. -/
theorem remeasured_nodes_do_not_overlap :
    let ds : List Declaration := [⟨"A", [⟨"b", "B", .name⟩], 1⟩, ⟨"B", [], 4⟩, ⟨"C", [], 7⟩]
    let before : List (Operation Rat) := [.setDeclarations ⟨ds, by decide⟩, .measure "A" ⟨200, 80⟩,
      .measure "B" ⟨200, 40⟩, .move "C" ⟨0, 0⟩, .frame, .measure "B" ⟨300, 60⟩]
    let after := [.frame, .settle 2 layeredService, .settle 1 layeredService]
    let start := create ⟨.horizontal, true, .light, true⟩ .standard
    let s := start.run (before ++ after)
    ∃ m ∈ s.nodes, ∃ n ∈ s.nodes, m.id = "A" ∧ n.id = "B" ∧ ¬ m.Overlaps n := by
  intro ds before after start s
  have hNames : ∀ d ∈ ds, '-' ∉ d.name.toList ∧ isDummy d.name = false := by decide
  have hIds : s.nodes.map Node.id = ["A", "B", "C"] :=
    (mirrors_run _ _ (before ++ after)).ids.trans (by decide +kernel)
  have hOps : ∀ op ∈ before ++ after,
      (op.Bundled ∧ op.Plain) ∧ op.givesUp = false ∧ op.NonNegative ∧ op.Undisguised := by
    intro op hOp
    simp only [before, after, List.mem_append, List.mem_cons, List.not_mem_nil, or_false] at hOp
    rcases hOp with (rfl | rfl | rfl | rfl | rfl | rfl) | rfl | rfl | rfl
    · exact ⟨⟨trivial, fun d hd => (hNames d hd).1⟩, rfl, trivial, fun d hd => (hNames d hd).2⟩
    all_goals first
      | exact ⟨⟨trivial, trivial⟩, rfl, trivial, trivial⟩
      | exact ⟨⟨trivial, trivial⟩, rfl, ⟨by decide, by decide⟩, trivial⟩
      | exact ⟨⟨rfl, trivial⟩, rfl, trivial, trivial⟩
  have hIdle : s.state = .idle := by
    have hPasses : (start.run before).passes = 1 := by decide +kernel
    have hTokens : (start.run before).tokens = [1] := by decide +kernel
    rw [show s = _ from run_append _ before after, Reachable.idle_iff_finished ⟨_, _, before, rfl⟩]
    · constructor
      · rw [hTokens]
        intro token hToken
        rw [List.mem_singleton.mp hToken]
        exact ⟨.settle 1 layeredService, by simp [after], rfl⟩
      · intro _
        rw [hPasses]
        exact ⟨[], _, rfl, .settle 2 layeredService, by simp, rfl⟩
    · intro op hOp
      simp only [after, List.mem_cons, List.not_mem_nil, or_false] at hOp
      rcases hOp with rfl | rfl | rfl
      · trivial
      · exact fun _ _ h => h
      · exact fun _ _ h => h
  have hFree : ∀ id, id ≠ "C" → id ∉ s.pinned := by
    intro id hOther
    apply not_mem_pinned_run
    refine ⟨?_, ?_, ?_, ?_, ?_, ?_, ?_, ?_, ?_, trivial⟩ <;>
    · rintro ⟨_, hOp, _⟩
      first
        | cases hOp; exact hOther rfl
        | simp only [reduceCtorEq] at hOp
  have hNoFailure := no_failure_run ⟨.horizontal, true, .light, true⟩ .standard
    (fun op hOp => (hOps op hOp).1)
  have hSpaced : LayoutOptions.standard.Spaced := ⟨by decide, by decide, by decide, rfl⟩
  have hLayered : ∀ op ∈ before ++ after, op.Layered := fun op hOp =>
    Operation.layered_of_bundled (hOps op hOp).1.1
  obtain ⟨m, hm, hmId⟩ := List.mem_map.mp (hIds ▸ (by simp : "A" ∈ ["A", "B", "C"]))
  obtain ⟨n, hn, hnId⟩ := List.mem_map.mp (hIds ▸ (by simp : "B" ∈ ["A", "B", "C"]))
  have hNe : m ≠ n := fun hSame => by
    rw [hSame, hnId] at hmId
    exact absurd hmId (by decide)
  exact ⟨m, hm, n, hn, hmId, hnId, idle_nodes_do_not_overlap _ _ hSpaced
    (fun op hOp => ⟨hLayered op hOp, (hOps op hOp).2⟩) hNoFailure hIdle m hm n hn hNe
    (hFree m.id (by rw [hmId]; decide)) (hFree n.id (by rw [hnId]; decide))⟩

end TypeDiagram.Session
