import TypeDiagram.Proofs.Session.Answer
import TypeDiagram.Proofs.Source.DeclaredName

/-! # No layout of a diagram fails

A pass is told to be postponed only if its service fails it. What the passes of a diagram are
started for are models of declarations, so the service that draws in layers answers all of them, as
long as no name that is declared has a `-`. The names in a source text have none.
-/

namespace TypeDiagram.Session

open Diagram Layout

variable {α : Type}

namespace Operation

/-- A pass that the operation settles is settled by the service that draws in layers. -/
def Bundled [Coordinate α] : Operation α → Prop
  | settle _ service => service = layeredService
  | _ => True

/-- No name that the operation declares has a `-`. A source text declares no such name anyway. -/
def Plain : Operation α → Prop
  | setDeclarations ds => ∀ d ∈ ds.entries, '-' ∉ d.name.toList
  | _ => True

theorem layered_of_bundled [Coordinate α] {op : Operation α} (h : op.Bundled) : op.Layered := by
  cases op with
  | settle token service => exact fun _ _ hAnswer => h ▸ hAnswer
  | _ => trivial

end Operation

/-! ## Events -/

theorem kind_of_mem_invalidations {last current : OrderedMap String Model.TopologyHash}
    {e : Event Notice} (h : e ∈ invalidations last current) : e.kind = .connectionsInvalidated := by
  obtain ⟨_, _, rfl⟩ := List.mem_map.mp h
  rfl

theorem mem_log_fitView {s : Session α} {e : Event Notice} (h : e ∈ s.fitView.log) :
    e ∈ s.log ∨ e.kind = .fitView := by
  unfold fitView at h
  split at h
  · refine (List.mem_append.mp h).imp id fun hNew => ?_
    rw [List.mem_singleton.mp hNew]
  · exact .inl h

theorem frame_log (s : Session α) : s.frame.log = s.log :=
  frame_keeps log (fun _ _ => rfl) (fun _ => rfl) s

variable [Coordinate α] {s : Session α} {e : Event Notice}

theorem mem_log_commit {nodes : List (Node α)} {edges : List Edge}
    (h : e ∈ (s.commit nodes edges).log) : e ∈ s.log ∨ e.kind = .stateCommitted := by
  rw [commit_eq] at h
  refine (List.mem_append.mp h).imp id fun hNew => ?_
  rw [List.mem_singleton.mp hNew]

theorem mem_log_updateNode {id : String} {change : Node α → Node α}
    (h : e ∈ (s.updateNode id change).1.log) : e ∈ s.log ∨ e.kind = .stateCommitted := by
  unfold updateNode at h
  split at h
  · exact mem_log_commit h
  · exact .inl h

theorem mem_log_move {id : String} {position : Position α} (h : e ∈ (s.move id position).1.log) :
    e ∈ s.log ∨ e.kind = .stateCommitted := by
  unfold move at h
  split at h
  · have hNew := mem_log_updateNode h
    exact hNew
  · exact .inl h

theorem mem_log_applyPass {p : Pass α} {placed : List (Node α)}
    (h : e ∈ (s.applyPass p placed).log) :
    e ∈ s.log ∨ e.kind = .stateCommitted ∨ e.kind = .layoutApplied ∨ e.kind = .fitView := by
  rw [applyPass_eq] at h
  rcases mem_log_fitView h with h | h
  · rcases List.mem_append.mp h with h | h
    · exact (mem_log_commit h).imp id .inl
    · rw [List.mem_singleton.mp h]
      exact .inr (.inr (.inl rfl))
  · exact .inr (.inr (.inr h))

theorem fails_of_postponed {op : Operation α} (h : e ∈ (s.step op).log)
    (hKind : e.kind = .layoutPostponed) : e ∈ s.log ∨ Fails s op := by
  have hOther : ∀ kind, kind ≠ .layoutPostponed → e.kind ≠ kind := fun _ hNe hIs =>
    hNe (hIs.symm.trans hKind)
  cases op with
  | setSource source | setDeclarations ds =>
    rw [step_of_models?_eq_some rfl, setModels_eq] at h
    rcases List.mem_append.mp h with h | h
    · exact .inl ((mem_log_commit h).resolve_right (hOther _ EventKind.noConfusion))
    · exact absurd (kind_of_mem_invalidations h) (hOther _ EventKind.noConfusion)
  | measure id size =>
    exact .inl ((mem_log_updateNode h).resolve_right (hOther _ EventKind.noConfusion))
  | move id position =>
    exact .inl ((mem_log_move h).resolve_right (hOther _ EventKind.noConfusion))
  | frame => exact .inl (frame_log s ▸ h)
  | settle token service =>
    rcases settle_cases s token service with hIdle | ⟨p, placed, hApplies⟩
    · generalize hStep : s.step (.settle token service) = t at h hIdle
      cases hIdle with
      | absent | stale => exact .inl h
      | failed p e' hIn hToken _ hResult =>
        exact .inr ⟨p, hIn, service, e', by rw [hToken], hResult⟩
    · rw [hApplies.step_eq] at h
      rcases mem_log_applyPass h with h | h | h | h
      · exact .inl h
      all_goals exact absurd h (hOther _ EventKind.noConfusion)
  | noticeViewport | toggleAutoFit | toggleDirection | requestLayout | layoutNow | begin token
  | cancel token | close => exact .inl h

/-! ## Runs -/

omit [Coordinate α] in
theorem sound_of_models? {op : Operation α} (hPlain : op.Plain) {models : List Model}
    (h : op.models? = some models) : Model.Sound models := by
  cases op with
  | setSource source =>
    exact Option.some.inj h ▸
      Model.sound_ofDeclarations (Source.nodup_names _) (Source.plain_declarations source)
  | setDeclarations ds => exact Option.some.inj h ▸ Model.sound_ofDeclarations ds.distinct hPlain
  | _ => cases h

omit [Coordinate α] in
theorem sound_lastModels {ops : List (Operation α)} (hPlain : ∀ op ∈ ops, op.Plain) :
    Model.Sound (lastModels ops) := by
  induction ops using List.reverseRecOn with
  | nil =>
    have hNone : ∀ m ∈ ([] : List Model), False := fun _ hm => List.not_mem_nil hm
    exact ⟨List.nodup_nil, fun m hm => (hNone m hm).elim, fun m hm => (hNone m hm).elim⟩
  | append_singleton ops op ih =>
    rw [lastModels_concat]
    cases hModels : op.models? with
    | none => exact ih fun other hIn => hPlain other (List.mem_append_left _ hIn)
    | some models => exact sound_of_models? (hPlain op (by simp)) hModels

theorem drawable_run (options : ViewOptions) (layoutOptions : LayoutOptions)
    {ops : List (Operation α)} (hPlain : ∀ op ∈ ops, op.Plain) :
    Drawable ((create options layoutOptions).run ops).nodes
      ((create options layoutOptions).run ops).edges := by
  have hMirrors := mirrors_run options layoutOptions ops
  rw [hMirrors.edges]
  exact drawable_of_models (sound_lastModels hPlain) hMirrors.ids hMirrors.nodeModels

theorem not_fails_run (options : ViewOptions) (layoutOptions : LayoutOptions)
    {ops : List (Operation α)} (hPlain : ∀ op ∈ ops, op.Plain) {op : Operation α}
    (hBundled : op.Bundled) : ¬ Fails ((create options layoutOptions).run ops) op := by
  rintro ⟨p, hp, service, e, rfl, hResult⟩
  obtain ⟨before, token, hPrefix, hSame⟩ := captured_run options layoutOptions ops hp
  have hDrawable : Drawable p.nodes p.edges := by
    rw [hSame]
    exact drawable_run options layoutOptions fun other hIn => hPlain other (hPrefix.subset hIn)
  obtain ⟨placed, hPlaced⟩ :=
    hDrawable.arranges ((create options layoutOptions).run ops).layoutOptions p.direction p.pinned
  rw [show service = layeredService from hBundled, Pass.result, hPlaced] at hResult
  cases hResult

theorem no_failure_run (options : ViewOptions) (layoutOptions : LayoutOptions)
    {ops : List (Operation α)} (hOps : ∀ op ∈ ops, op.Bundled ∧ op.Plain) :
    Throughout (fun s op => ¬ Fails s op) (create options layoutOptions) ops := by
  induction ops using List.reverseRecOn with
  | nil => trivial
  | append_singleton ops op ih =>
    have hEarlier : ∀ other ∈ ops, other.Bundled ∧ other.Plain := fun other hIn =>
      hOps other (List.mem_append_left _ hIn)
    exact (throughout_concat _ ops op).mpr ⟨ih hEarlier,
      not_fails_run options layoutOptions (fun other hIn => (hEarlier other hIn).2)
        (hOps op (by simp)).1⟩

theorem no_postponement_run (options : ViewOptions) (layoutOptions : LayoutOptions)
    {ops : List (Operation α)} (hOps : ∀ op ∈ ops, op.Bundled ∧ op.Plain) :
    ∀ e ∈ ((create options layoutOptions).run ops).log, e.kind ≠ .layoutPostponed := by
  induction ops using List.reverseRecOn with
  | nil => exact fun e he => absurd he List.not_mem_nil
  | append_singleton ops op ih =>
    have hEarlier : ∀ other ∈ ops, other.Bundled ∧ other.Plain := fun other hIn =>
      hOps other (List.mem_append_left _ hIn)
    intro e he hKind
    rw [run_concat] at he
    rcases fails_of_postponed he hKind with hOld | hFails
    · exact ih hEarlier e hOld hKind
    · exact not_fails_run options layoutOptions (fun other hIn => (hEarlier other hIn).2)
        (hOps op (by simp)).1 hFails

/-- Models that bear distinct names without a `-`, and refer to one another only, are drawn wherever
their nodes stand, whatever the nodes measure and which of them are pinned: every route has the ends
of its edge, and all that is looked up on the way is there. The models of a source text are such
models, so a diagram never postpones a layout. -/
theorem layout_never_fails :
    (∀ models : List Model, Model.Sound models →
      ∀ (place : String → Position α) (extent : String → Option (Size α)) (options : LayoutOptions)
        (direction : Direction) (pinned : List String),
      let nodes := (nodesOf models : List (Node α)).map fun n =>
        { n with position := place n.id, size := extent n.id }
      let edges := edgesOf models
      let request : Request α Unit := requestFor options nodes edges direction pinned
      ∃ (r : Resolved α) (drawing : Drawing α Unit) (placed : List (Node α)),
        resolveRequest request = .ok r ∧
        r.routes.map (fun route => (route.source, route.target)) =
          edges.map (fun e => (e.source, e.target)) ∧
        (planOf r).Complete r ∧ draw request = .ok drawing ∧
        arrange layeredService options nodes edges direction pinned = .ok placed) ∧
    (∀ ds : List Declaration, (ds.map Declaration.name).Nodup → (∀ d ∈ ds, '-' ∉ d.name.toList) →
      Model.Sound (Model.ofDeclarations ds)) ∧
    (∀ source, Model.Sound (Model.ofDeclarations (Source.declarations source))) ∧
    ∀ (options : ViewOptions) (layoutOptions : LayoutOptions) (ops : List (Operation α)),
      (∀ op ∈ ops, op.Bundled ∧ op.Plain) →
      ∀ e ∈ ((create options layoutOptions).run ops).log, e.kind ≠ .layoutPostponed := by
  refine ⟨?_, fun _ => Model.sound_ofDeclarations, ?_, ?_⟩
  · intro models hSound place extent options direction pinned nodes edges request
    have hIds : nodes.map Node.id = models.map Model.id := by
      rw [List.map_map, nodesOf, List.map_map]
      rfl
    have hModels : nodes.map Node.model = models := by
      rw [List.map_map, nodesOf, List.map_map]
      exact List.map_id models
    have hDrawable : Drawable nodes edges := drawable_of_models hSound hIds hModels
    obtain ⟨r, hRead, hReads⟩ := hDrawable.resolves options direction pinned
    obtain ⟨placed, hPlaced⟩ := hDrawable.arranges options direction pinned
    rcases draw_cases request with ⟨e, hError, _⟩ | ⟨_, drawing, _, hDraw, _⟩
    · rw [hRead] at hError
      cases hError
    · refine ⟨r, drawing, placed, hRead, ?_, complete_planOf (wellRouted_of_resolveRequest hRead),
        hDraw, hPlaced⟩
      rw [hReads.routes, List.map_map]
      rfl
  · intro source
    exact Model.sound_ofDeclarations (Source.nodup_names _) (Source.plain_declarations source)
  · intro options layoutOptions ops hOps
    exact no_postponement_run options layoutOptions hOps

/-- Two models refer to themselves and to one another, by fields of the same name with a `-` in it.
-/
theorem layout_of_cycle_never_fails :
    let ds : List Declaration :=
      [⟨"A", [⟨"x-B", "B", .name⟩, ⟨"x-B", "A[]", .array "A"⟩], 1⟩,
        ⟨"B", [⟨"B-x", "Map<A, B>", .generic "Map" ["A", "B"]⟩], 5⟩]
    let models := Model.ofDeclarations ds
    let nodes := (nodesOf models : List (Node Rat)).map fun n =>
      { n with position := ⟨3, 4⟩, size := some ⟨200, 0⟩ }
    let edges := edgesOf models
    Model.Sound models ∧
    (∃ r : Resolved Rat, resolveRequest (requestFor .standard nodes edges .vertical ["B"]) = .ok r ∧
        r.routes.map (fun route => (route.source, route.target)) =
          [("A", "B"), ("A", "A"), ("B", "A"), ("B", "B")]) ∧
    ∀ e ∈ ((create (α := Rat) ⟨.vertical, true, .light, true⟩ .standard).run
      [.setDeclarations ⟨ds, by decide⟩, .frame, .settle 1 layeredService]).log,
        e.kind ≠ .layoutPostponed := by
  intro ds models nodes edges
  obtain ⟨hDrawn, hDeclared, _, hRuns⟩ := layout_never_fails (α := Rat)
  have hPlain : ∀ d ∈ ds, '-' ∉ d.name.toList := by decide
  have hSound : Model.Sound models := hDeclared ds (by decide) hPlain
  refine ⟨hSound, ?_, hRuns _ _ _ ?_⟩
  · obtain ⟨r, _, _, hRead, hEnds, _⟩ := hDrawn models hSound (fun _ => ⟨3, 4⟩)
      (fun _ => some ⟨200, 0⟩) .standard .vertical ["B"]
    refine ⟨r, hRead, hEnds.trans ?_⟩
    decide +kernel
  · intro op hOp
    simp only [List.mem_cons, List.not_mem_nil, or_false] at hOp
    rcases hOp with rfl | rfl | rfl
    · exact ⟨trivial, hPlain⟩
    · exact ⟨trivial, trivial⟩
    · exact ⟨rfl, trivial⟩

end TypeDiagram.Session
