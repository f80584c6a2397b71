import TypeDiagram.Proofs.Session.Answer
import TypeDiagram.Proofs.Session.Recall

/-! # A committed size is the last measurement

Only a measurement changes the size that is remembered of a node. A pass gives back the size that it
was started with, and it is merged only if that is the size of the node by then.
-/

namespace TypeDiagram.Session

open Diagram Layout

variable {α : Type} [Coordinate α]

/-- The operation measures nothing that is no number. -/
def Operation.Numeric : Operation α → Prop
  | .measure _ size => Coordinate.same size.width size.width = true ∧
      Coordinate.same size.height size.height = true
  | _ => True

/-- The size that the node with the given id was measured with last, if it was measured at all. -/
def LastMeasured (start : Session α) (ops : List (Operation α)) (id : String) :
    Option (Size α) → Prop
  | some size => ∃ before, IsLast (Measures id) start ops before (.measure id size)
  | none => Throughout (fun s op => ¬ Measures id s op) start ops

theorem lastMeasured_of_measures {start : Session α} {ops : List (Operation α)} {id : String}
    {size : Size α} (h : ((start.run ops).measure id size).2 = true) :
    LastMeasured start (ops ++ [.measure id size]) id (some size) :=
  ⟨ops, isLast_of_last ⟨size, rfl, h⟩⟩

theorem LastMeasured.concat {start : Session α} {ops : List (Operation α)} {id : String}
    {size : Option (Size α)} (h : LastMeasured start ops id size) {op : Operation α}
    (hLast : ¬ Measures id (start.run ops) op) : LastMeasured start (ops ++ [op]) id size := by
  cases size with
  | none => exact (throughout_concat start ops op).mpr ⟨h, hLast⟩
  | some size =>
    obtain ⟨before, hBefore⟩ := h
    exact ⟨before, hBefore.concat hLast⟩

theorem same_of_sameExtent {a b : α} (h : sameExtent a b = true) (hb : Coordinate.same b b = true) :
    Coordinate.same a b = true := by
  unfold sameExtent at h
  rw [hb] at h
  simpa using h

variable [LawfulCoordinate α] [LawfulMagnitude α]

theorem remembered_size_run (options : ViewOptions) (layoutOptions : LayoutOptions)
    {ops : List (Operation α)} (hLayered : ∀ op ∈ ops, op.Layered) (id : String) :
    ∃ size, LastMeasured (create options layoutOptions) ops id size ∧
      sameSize ((((create options layoutOptions).run ops).remembered? id).bind Metrics.size)
        size = true := by
  induction ops using List.reverseRecOn with
  | nil => exact ⟨none, trivial, rfl⟩
  | append_singleton ops op ih =>
    obtain ⟨size, hLast, hSame⟩ := ih fun other hIn => hLayered other (List.mem_append_left _ hIn)
    rw [run_concat]
    generalize hBefore : ((create options layoutOptions).run ops).remembered? id = before at hSame
    generalize hAfter : (((create options layoutOptions).run ops).step op).remembered? id = after
    have hRecalls := recalls_run options layoutOptions ops op id
    rw [hBefore, hAfter] at hRecalls
    -- A pass may give back another form of the same size, so the sizes are compared, not equated.
    cases hRecalls with
    | keeps _ hMeasures => exact ⟨size, hLast.concat hMeasures, hSame⟩
    | begins hOp => exact ⟨size, hLast.concat (not_measures_of_models? hOp id), hSame⟩
    | measures m measured hOp hDone =>
      subst hOp
      exact ⟨some measured, lastMeasured_of_measures hDone, sameSize_refl (some measured)⟩
    | moves m position hOp =>
      refine ⟨size, hLast.concat ?_, hSame⟩
      rintro ⟨_, hMeasure, _⟩
      rw [hOp] at hMeasure
      cases hMeasure
    | merges n p placed hApplies hIn hId =>
      have hDistinct := nodup_captured_run options layoutOptions ops
        (List.mem_of_find?_eq_some hApplies.inFlight)
      have hResult := hApplies.layered (hLayered op (by simp))
      refine ⟨size, hLast.concat ?_, sameSize_trans ?_ hSame⟩
      · rintro ⟨_, hMeasure, _⟩
        obtain ⟨service, hSettle, _⟩ := hApplies.settles
        rw [hSettle] at hMeasure
        cases hMeasure
      · exact merged_size hDistinct (arrange_sizes hDistinct hResult) n

/-- The size of a committed node is that of its last measurement, whatever was laid out and edited
since; a node that was never measured has none. -/
theorem committed_size_is_last_measured (options : ViewOptions) (layoutOptions : LayoutOptions)
    (ops : List (Operation α)) (hOps : ∀ op ∈ ops, op.Layered ∧ op.Numeric) :
    let start := create options layoutOptions
    ∀ n ∈ (start.run ops).nodes,
      (∃ before size shown, IsLast (Measures n.id) start ops before (.measure n.id size) ∧
        n.size = some shown ∧ Coordinate.same shown.width size.width = true ∧
        Coordinate.same shown.height size.height = true) ∨
      Throughout (fun s op => ¬ Measures n.id s op) start ops ∧ n.size = none := by
  intro start n hn
  obtain ⟨size, hLast, hSame⟩ :=
    remembered_size_run options layoutOptions (fun op hIn => (hOps op hIn).1) n.id
  rw [(mirrors_run options layoutOptions ops).remembered hn] at hSame
  change sameSize n.size size = true at hSame
  cases size with
  | none =>
    cases hShown : n.size with
    | none => exact .inr ⟨hLast, rfl⟩
    | some shown =>
      rw [hShown] at hSame
      cases hSame
  | some size =>
    cases hShown : n.size with
    | none =>
      rw [hShown] at hSame
      cases hSame
    | some shown =>
      rw [hShown] at hSame
      obtain ⟨before, after, hSplit, hMeasures, hAfter⟩ := hLast
      have hIn : .measure n.id size ∈ ops := by
        rw [hSplit]
        simp
      obtain ⟨hWidth, hHeight⟩ := (hOps _ hIn).2
      obtain ⟨hSameWidth, hSameHeight⟩ := (Bool.and_eq_true _ _).mp hSame
      exact .inl ⟨before, size, shown, ⟨after, hSplit, hMeasures, hAfter⟩, rfl,
        same_of_sameExtent hSameWidth hWidth, same_of_sameExtent hSameHeight hHeight⟩

/-- The node is measured anew, with a size that takes no room, while a pass for the old size is in
flight; then its declaration goes and returns. -/
theorem size_measured_in_flight_stays :
    let declared : Operation Rat := .setDeclarations ⟨[⟨"A", [], 1⟩], by decide⟩
    let ops := [declared, .measure "A" ⟨200, 80⟩, .frame, .measure "A" ⟨-1, 0⟩,
      .settle 1 layeredService, .setDeclarations ⟨[], List.nodup_nil⟩, declared]
    let start := create ⟨.horizontal, true, .light, true⟩ .standard
    ∃ n ∈ (start.run ops).nodes, n.id = "A" ∧ ∃ before size shown,
      IsLast (Measures "A") start ops before (.measure "A" size) ∧ n.size = some shown ∧
      Coordinate.same shown.width size.width = true ∧
      Coordinate.same shown.height size.height = true := by
  intro declared ops start
  have hIds : (start.run ops).nodes.map Node.id = ["A"] := (mirrors_run _ _ ops).ids.trans rfl
  have hFirst : (start.run [declared]).nodes.map Node.id = ["A"] :=
    (mirrors_run _ _ [declared]).ids.trans rfl
  have hOps : ∀ op ∈ ops, op.Layered ∧ op.Numeric := by
    intro op hOp
    simp only [ops, List.mem_cons, List.not_mem_nil, or_false] at hOp
    rcases hOp with rfl | rfl | rfl | rfl | rfl | rfl | rfl
    all_goals first
      | exact ⟨trivial, trivial⟩
      | exact ⟨trivial, rfl, rfl⟩
      | exact ⟨fun _ _ h => h, trivial⟩
  obtain ⟨n, hn, hId⟩ := List.mem_map.mp (hIds ▸ List.mem_singleton_self "A")
  refine ⟨n, hn, hId, ?_⟩
  rcases committed_size_is_last_measured _ _ ops hOps n hn with hLast | ⟨hNever, _⟩
  · exact hId ▸ hLast
  · have hMeasured : ((start.run [declared]).measure n.id ⟨200, 80⟩).2 = true :=
      (measure_snd_iff _ _ _).mpr (by rw [hFirst, hId]; exact List.mem_singleton_self "A")
    exact absurd ⟨⟨200, 80⟩, by rw [hId], hMeasured⟩ hNever.2.1

end TypeDiagram.Session
