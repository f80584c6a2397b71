import Mathlib.Data.List.Induction
import TypeDiagram.Proofs.Session.Frame
import TypeDiagram.Proofs.Session.Step

/-! # What one step of a run does to the layout passes

Of the state of a diagram, this is what concerns its passes: which frame is pending, which passes
were started and are in flight, and which were applied. A step commits a view and asks for a layout
if the view calls for one, starts a pass, lets one run, ends passes, or does nothing to all this.
-/

namespace TypeDiagram.Session

open Diagram

structure Desk (α : Type) where
  direction : Direction
  scheduler : FrameScheduler Nat FrameTask
  passes : Nat
  inFlight : List (Pass α)
  layoutsApplied : Nat
  /-- The events that tell that a pass was applied. -/
  applications : List (Event Notice)

variable {α : Type}

def applicationsOf (log : List (Event Notice)) : List (Event Notice) :=
  log.filter fun e => e.kind == .layoutApplied

def desk (s : Session α) : Desk α :=
  ⟨s.options.direction, s.scheduler, s.passes, s.inFlight, s.layoutsApplied, applicationsOf s.log⟩

theorem state_eq_idle_iff (s : Session α) :
    s.state = .idle ↔ s.scheduler.pending = false ∧ s.inFlight = [] := by
  unfold state
  cases s.scheduler.pending <;> cases s.inFlight <;> simp

theorem applicationsOf_append (log more : List (Event Notice)) :
    applicationsOf (log ++ more) = applicationsOf log ++ applicationsOf more :=
  List.filter_append ..

theorem applicationsOf_of_kinds {told : List (Event Notice)}
    (h : ∀ e ∈ told, e.kind ≠ .layoutApplied) : applicationsOf told = [] := by
  rw [applicationsOf, List.filter_eq_nil_iff]
  exact fun e he => by simpa using h e he

theorem applicationsOf_invalidations (last current : OrderedMap String Model.TopologyHash) :
    applicationsOf (invalidations last current) = [] := by
  apply applicationsOf_of_kinds
  intro e he
  obtain ⟨_, _, rfl⟩ := List.mem_map.mp he
  exact EventKind.noConfusion

theorem publish_desk {kind : EventKind} (h : kind ≠ .layoutApplied) (s : Session α)
    (data : Notice) (nodeId : Option String) : (s.publish kind data nodeId).desk = s.desk := by
  have hNone : applicationsOf [⟨kind, nodeId, data⟩] = [] :=
    applicationsOf_of_kinds fun e he => by rwa [List.mem_singleton.mp he]
  unfold desk publish
  rw [applicationsOf_append, hNone, List.append_nil]

theorem fitView_desk (s : Session α) : s.fitView.desk = s.desk := by
  unfold fitView
  split
  · exact publish_desk EventKind.noConfusion _ _ _
  · rfl

variable [Coordinate α]

theorem commit_desk (s : Session α) (nodes : List (Node α)) (edges : List Edge) :
    (s.commit nodes edges).desk = { s.desk with
      scheduler :=
        if needsLayout { s with nodes := nodes, edges := edges } then
          s.scheduler.request .startLayout
        else s.scheduler } := by
  have hNone : applicationsOf
      [⟨.stateCommitted, none, .committed nodes.length edges.length⟩] = [] := rfl
  rw [commit_eq, desk, applicationsOf_append, hNone, List.append_nil]
  rfl

theorem setModels_desk (s : Session α) (models : List Model) :
    (s.setModels models).desk =
      (s.commit ((nodesOf models).map s.restored) (edgesOf models)).desk := by
  rw [setModels_eq, desk, applicationsOf_append, applicationsOf_invalidations, List.append_nil]
  rfl

theorem measure_desk {s : Session α} {id : String} (h : id ∈ s.nodes.map Node.id)
    (size : Size α) :
    (s.measure id size).1.desk =
      (s.commit (s.nodes.map fun n => if n.id == id then { n with size := some size } else n)
        s.edges).desk := by
  unfold measure updateNode
  rw [if_pos ((any_id_iff s id).mpr h)]

theorem move_desk {s : Session α} {id : String} (h : id ∈ s.nodes.map Node.id)
    (position : Position α) :
    (s.move id position).1.desk =
      (s.commit (s.nodes.map fun n => if n.id == id then { n with position } else n)
        s.edges).desk := by
  unfold move updateNode
  rw [if_pos ((node?_isSome_iff s id).mpr h), if_pos ((any_id_iff _ id).mpr h), commit_desk,
    commit_desk]
  rfl

theorem Idles.desk {s t : Session α} {token : Nat} {service : Service α}
    (h : Idles s token service t) :
    t.desk = { s.desk with inFlight := s.inFlight.filter fun p => p.token != token } := by
  cases h with
  | absent h =>
    have hAll : (s.inFlight.filter fun p => p.token != token) = s.inFlight :=
      List.filter_eq_self.mpr fun p hp => by simpa using h p hp
    rw [hAll]
    rfl
  | stale => rfl
  | failed => exact publish_desk EventKind.noConfusion _ _ _

theorem applyPass_desk (s : Session α) (p : Pass α) (placed : List (Node α)) :
    (s.applyPass p placed).desk =
      { (s.commit (s.nodes.map (s.merged p placed)) s.edges).desk with
        layoutsApplied := s.layoutsApplied + 1
        applications := applicationsOf s.log ++ [⟨.layoutApplied, none, .applied p.token⟩] } := by
  have hLog : applicationsOf (s.commit (s.nodes.map (s.merged p placed)) s.edges).log =
      applicationsOf s.log := by
    rw [show applicationsOf _ = _ from congrArg Desk.applications (commit_desk s _ _)]
    rfl
  rw [applyPass_eq, fitView_desk, ← hLog]
  unfold publish desk
  rw [applicationsOf_append]
  rfl

theorem Applies.desk {s : Session α} {op : Operation α} {p : Pass α} {placed : List (Node α)}
    (h : Applies s op p placed) :
    (s.step op).desk = { (s.commit (s.nodes.map (s.merged p placed)) s.edges).desk with
      inFlight := s.inFlight.filter fun q => q.token != p.token
      layoutsApplied := s.layoutsApplied + 1
      applications := applicationsOf s.log ++ [⟨.layoutApplied, none, .applied p.token⟩] } := by
  rw [h.step_eq, applyPass_desk, commit_desk, commit_desk]
  rfl

/-! ## All steps -/

/-- What a step does to the passes, by cases. -/
inductive Works (s : Session α) (op : Operation α) (t : Session α) : Prop where
  /-- A view is committed. -/
  | commits (hEnds : ∀ token, op.ends token = false)
      (hDesk : t.desk = (s.commit t.nodes t.edges).desk)
  /-- The newest pass is merged into the view. -/
  | applies (p : Pass α) (placed : List (Node α)) (h : Applies s op p placed)
  /-- A layout is asked for, perhaps for another direction. -/
  | requests (direction : Direction) (hEnds : ∀ token, op.ends token = false)
      (hStore : t.store = s.store)
      (hDesk : t.desk = { s.desk with
        direction := direction
        scheduler := s.scheduler.request .startLayout })
  /-- A pass is started, in place of the pending frame if there is one. -/
  | starts (clock : Nat) (hEnds : ∀ token, op.ends token = false) (hStore : t.store = s.store)
      (hDesk : t.desk = { s.desk with
        scheduler := FrameScheduler.cancel { s.scheduler with clock := clock }
        passes := s.passes + 1
        inFlight := s.inFlight ++ [s.capture (s.passes + 1)] })
  /-- A pass that has started gets to run. -/
  | begins (token : Nat) (hEnds : ∀ token, op.ends token = false) (hStore : t.store = s.store)
      (hDesk : t.desk = { s.desk with
        inFlight := s.inFlight.map fun p => if p.token == token then s.capture token else p })
  /-- A pass is given up, or settles without effect. -/
  | ends (token : Nat)
      (hOp : op = .cancel token ∨ ∃ service, op = .settle token service ∧ Idles s token service t)
      (hStore : t.store = s.store)
      (hDesk : t.desk = { s.desk with inFlight := s.inFlight.filter fun p => p.token != token })
  /-- All passes are given up, and the pending frame too. -/
  | closes (hOp : op = .close) (hStore : t.store = s.store)
      (hDesk : t.desk = { s.desk with scheduler := s.scheduler.cancel, inFlight := [] })
  /-- At most the clock goes on. -/
  | waits (clock : Nat) (hEnds : ∀ token, op.ends token = false) (hStore : t.store = s.store)
      (hDesk : t.desk = { s.desk with scheduler := { s.scheduler with clock := clock } })

theorem works_setModels {op : Operation α} {models : List Model} (h : op.models? = some models)
    (hEnds : ∀ token, op.ends token = false) (s : Session α) : Works s op (s.step op) := by
  rw [step_of_models?_eq_some h]
  apply Works.commits hEnds
  rw [setModels_desk, setModels_nodes, setModels_edges]

theorem step_works {s : Session α} (h : s.scheduler.Single) (op : Operation α) :
    Works s op (s.step op) := by
  cases op with
  | setSource source | setDeclarations ds => exact works_setModels rfl (fun _ => rfl) s
  | measure id size =>
    by_cases hIn : id ∈ s.nodes.map Node.id
    · have hAdjusts := measure_adjusts hIn size
      apply Works.commits fun _ => rfl
      rw [hAdjusts.nodes, hAdjusts.edges]
      exact measure_desk hIn size
    · rw [step, step_measure_of_not_mem hIn]
      exact .waits s.scheduler.clock (fun _ => rfl) rfl rfl
  | move id position =>
    by_cases hIn : id ∈ s.nodes.map Node.id
    · have hAdjusts := move_adjusts hIn position
      apply Works.commits fun _ => rfl
      rw [hAdjusts.nodes, hAdjusts.edges]
      exact move_desk hIn position
    · rw [step, step_move_of_not_mem hIn]
      exact .waits s.scheduler.clock (fun _ => rfl) rfl rfl
  | noticeViewport => exact .waits s.scheduler.clock (fun _ => rfl) rfl rfl
  | toggleAutoFit => exact .requests s.options.direction (fun _ => rfl) rfl rfl
  | toggleDirection => exact .requests s.options.direction.flipped (fun _ => rfl) rfl rfl
  | requestLayout => exact .requests s.options.direction (fun _ => rfl) rfl rfl
  | layoutNow => exact .starts s.scheduler.clock (fun _ => rfl) rfl rfl
  | frame =>
    rw [step]
    rcases frame_cases h with ⟨clock, hFrame⟩ | ⟨_, clock, hFrame⟩
    · rw [hFrame]
      exact .waits clock (fun _ => rfl) rfl rfl
    · rw [hFrame]
      exact .starts clock (fun _ => rfl) rfl rfl
  | begin token => exact .begins token (fun _ => rfl) rfl rfl
  | settle token service =>
    rcases settle_cases s token service with hIdle | ⟨p, placed, hApplies⟩
    · exact .ends token (.inr ⟨service, rfl, hIdle⟩) hIdle.store hIdle.desk
    · exact .applies p placed hApplies
  | cancel token => exact .ends token (.inl rfl) rfl rfl
  | close => exact .closes rfl rfl rfl

/-! ## Runs -/

theorem commit_single {s : Session α} (h : s.scheduler.Single) (nodes : List (Node α))
    (edges : List Edge) : (s.commit nodes edges).desk.scheduler.Single := by
  rw [commit_desk]
  change (if _ then _ else _ : FrameScheduler Nat FrameTask).Single
  split
  · exact h.request
  · exact h

theorem step_single {s : Session α} (h : s.scheduler.Single) (op : Operation α) :
    (s.step op).scheduler.Single := by
  change (s.step op).desk.scheduler.Single
  cases step_works h op with
  | commits _ hDesk =>
    rw [hDesk]
    exact commit_single h _ _
  | applies p placed hApplies =>
    rw [hApplies.desk]
    exact commit_single h _ _
  | requests _ _ _ hDesk =>
    rw [hDesk]
    exact h.request
  | starts _ _ _ hDesk | closes _ _ hDesk =>
    rw [hDesk]
    exact FrameScheduler.single_cancel _
  | begins _ _ _ hDesk | ends _ _ _ hDesk | waits _ _ _ hDesk =>
    rw [hDesk]
    exact h

theorem single_run (options : ViewOptions) (layoutOptions : LayoutOptions)
    (ops : List (Operation α)) : ((create options layoutOptions).run ops).scheduler.Single := by
  induction ops using List.reverseRecOn with
  | nil => rfl
  | append_singleton ops op ih =>
    rw [run_concat]
    exact step_single ih op

theorem run_works (options : ViewOptions) (layoutOptions : LayoutOptions)
    (ops : List (Operation α)) (op : Operation α) :
    Works ((create options layoutOptions).run ops) op
      (((create options layoutOptions).run ops).step op) :=
  step_works (single_run options layoutOptions ops) op

end TypeDiagram.Session
