import TypeDiagram.Proofs.Session.Commit
import TypeDiagram.Proofs.Source.Register

/-! # What one step of a run does

A step rebuilds the view for other models, commits the same nodes with other positions or sizes, or
leaves the view, the pins and the caches alone. Invariants of the view have these three cases only.
-/

namespace TypeDiagram.Session

open Diagram

variable {α : Type}

theorem lastModels_concat (ops : List (Operation α)) (op : Operation α) :
    lastModels (ops ++ [op]) = (op.models?).getD (lastModels ops) := by
  unfold lastModels
  rw [List.reverse_append, List.reverse_singleton, List.singleton_append, List.findSome?_cons]
  cases op.models? <;> rfl

theorem nodup_of_models?_eq_some {op : Operation α} {models : List Model}
    (h : op.models? = some models) : (models.map Model.id).Nodup := by
  cases op with
  | setSource source =>
    rw [← Option.some.inj h, Model.ids_ofDeclarations]
    exact Source.nodup_names _
  | setDeclarations ds =>
    rw [← Option.some.inj h, Model.ids_ofDeclarations]
    exact ds.distinct
  | _ => cases h

theorem any_id_iff (s : Session α) (id : String) :
    (s.nodes.any fun n => n.id == id) = true ↔ id ∈ s.nodes.map Node.id := by
  simp [List.any_eq_true, List.mem_map]

theorem node?_isSome_iff (s : Session α) (id : String) :
    (s.node? id).isSome = true ↔ id ∈ s.nodes.map Node.id := by
  simp [node?, List.find?_isSome, List.mem_map]

theorem fitView_store (s : Session α) : s.fitView.store = s.store := by
  unfold fitView
  split <;> rfl

theorem frame_keeps {β : Type} (f : Session α → β) (hScheduler : ∀ (s : Session α) scheduler,
    f { s with scheduler := scheduler } = f s) (hStart : ∀ s : Session α, f s.startPass = f s)
    (s : Session α) : f s.frame = f s := by
  have hFold : ∀ (tasks : List FrameTask) (t : Session α),
      f (tasks.foldl (fun t _ => t.startPass) t) = f t := by
    intro tasks
    induction tasks with
    | nil => exact fun _ => rfl
    | cons task tasks ih => exact fun t => (ih t.startPass).trans (hStart t)
  exact (hFold _ _).trans (hScheduler s _)

theorem frame_store (s : Session α) : s.frame.store = s.store :=
  frame_keeps store (fun _ _ => rfl) (fun _ => rfl) s

variable [Coordinate α]

/-! ## Runs -/

theorem run_append (s : Session α) (ops more : List (Operation α)) :
    s.run (ops ++ more) = (s.run ops).run more := List.foldl_append

theorem run_concat (s : Session α) (ops : List (Operation α)) (op : Operation α) :
    s.run (ops ++ [op]) = (s.run ops).step op := run_append s ops [op]

theorem throughout_append {P : Session α → Operation α → Prop} (s : Session α)
    (ops more : List (Operation α)) :
    Throughout P s (ops ++ more) ↔ Throughout P s ops ∧ Throughout P (s.run ops) more := by
  induction ops generalizing s with
  | nil => simp [Throughout, run]
  | cons op ops ih =>
    rw [List.cons_append, Throughout, Throughout, ih, and_assoc]
    rfl

theorem throughout_concat {P : Session α → Operation α → Prop} (s : Session α)
    (ops : List (Operation α)) (op : Operation α) :
    Throughout P s (ops ++ [op]) ↔ Throughout P s ops ∧ P (s.run ops) op := by
  rw [throughout_append, Throughout, Throughout, and_true]

theorem Throughout.imp {P Q : Session α → Operation α → Prop} (hImp : ∀ s op, P s op → Q s op)
    {s : Session α} {ops : List (Operation α)} (h : Throughout P s ops) : Throughout Q s ops := by
  induction ops generalizing s with
  | nil => trivial
  | cons op ops ih => exact ⟨hImp s op h.1, ih h.2⟩

/-- The step is the last one of the run that has a property. -/
def IsLast (P : Session α → Operation α → Prop) (start : Session α)
    (ops before : List (Operation α)) (op : Operation α) : Prop :=
  ∃ after, ops = before ++ op :: after ∧ P (start.run before) op ∧
    Throughout (fun s other => ¬ P s other) (start.run (before ++ [op])) after

theorem isLast_of_last {P : Session α → Operation α → Prop} {start : Session α}
    {ops : List (Operation α)} {op : Operation α} (h : P (start.run ops) op) :
    IsLast P start (ops ++ [op]) ops op :=
  ⟨[], rfl, h, trivial⟩

theorem IsLast.concat {P : Session α → Operation α → Prop} {start : Session α}
    {ops before : List (Operation α)} {op last : Operation α} (h : IsLast P start ops before op)
    (hLast : ¬ P (start.run ops) last) : IsLast P start (ops ++ [last]) before op := by
  obtain ⟨after, rfl, hStep, hAfter⟩ := h
  refine ⟨after ++ [last], by simp, hStep, ?_⟩
  rw [throughout_concat, ← run_append, ← List.append_cons]
  exact ⟨hAfter, hLast⟩

theorem step_of_models?_eq_some {op : Operation α} {models : List Model}
    (h : op.models? = some models) (s : Session α) : s.step op = s.setModels models := by
  cases op with
  | setSource source | setDeclarations ds =>
    rw [← Option.some.inj h]
    rfl
  | _ => cases h

/-! ## Steps that keep the nodes -/

theorem move_snd_iff (s : Session α) (id : String) (position : Position α) :
    (s.move id position).2 = true ↔ id ∈ s.nodes.map Node.id := by
  unfold move updateNode
  rw [← node?_isSome_iff]
  split
  · rename_i h
    have hAny := (any_id_iff s id).mpr ((node?_isSome_iff s id).mp h)
    simp [hAny, h]
  · rename_i h
    simp [h]

theorem measure_snd_iff (s : Session α) (id : String) (size : Size α) :
    (s.measure id size).2 = true ↔ id ∈ s.nodes.map Node.id := by
  unfold measure updateNode
  rw [← any_id_iff]
  split
  · rename_i h
    simp [h]
  · rename_i h
    simp [h]

theorem merged_id (s : Session α) (p : Pass α) (placed : List (Node α)) (n : Node α) :
    (s.merged p placed n).id = n.id := by
  unfold merged
  split
  · rfl
  · split <;> rfl

theorem merged_model (s : Session α) (p : Pass α) (placed : List (Node α)) (n : Node α) :
    (s.merged p placed n).model = n.model := by
  unfold merged
  split
  · rfl
  · split <;> rfl

theorem merged_of_pinned {s : Session α} {n : Node α} (h : n.id ∈ s.pinned) (p : Pass α)
    (placed : List (Node α)) : s.merged p placed n = n := by
  unfold merged
  split
  · rfl
  · exact if_pos (List.contains_iff_mem.mpr h)

theorem applyPass_eq (s : Session α) (p : Pass α) (placed : List (Node α)) :
    s.applyPass p placed =
      (({ s.commit (s.nodes.map (s.merged p placed)) s.edges with
        layoutsApplied := s.layoutsApplied + 1 }).publish .layoutApplied (.applied p.token)
          none).fitView := by
  change ((commit { s with layoutsApplied := s.layoutsApplied + 1 }
    (s.nodes.map (s.merged p placed)) s.edges).publish .layoutApplied (.applied p.token)
      none).fitView = _
  rw [commit_eq, commit_eq]
  rfl

theorem applyPass_store (s : Session α) (p : Pass α) (placed : List (Node α)) :
    (s.applyPass p placed).store = (s.commit (s.nodes.map (s.merged p placed)) s.edges).store := by
  rw [applyPass_eq, fitView_store]
  rfl

/-- The operation moves the node with the given id by hand, and the node is there. -/
def Moves (id : String) (s : Session α) (op : Operation α) : Prop :=
  ∃ position, op = .move id position ∧ (s.move id position).2 = true

def Measures (id : String) (s : Session α) (op : Operation α) : Prop :=
  ∃ size, op = .measure id size ∧ (s.measure id size).2 = true

/-- A step commits the nodes anew, each changed in position and size at most. Pinned nodes stay
where they are unless they are moved by hand, and only committed nodes get pinned. -/
structure Adjusts (s : Session α) (op : Operation α) (f : Node α → Node α) (pins : List String) :
    Prop where
  id : ∀ n, (f n).id = n.id
  model : ∀ n, (f n).model = n.model
  pinned : ∀ id ∈ s.pinned, id ∈ pins
  committed : ∀ id ∈ pins, id ∈ s.pinned ∨ id ∈ s.nodes.map Node.id
  held : ∀ n, n.id ∈ s.pinned → ¬ Moves n.id s op → (f n).position = n.position
  store : (s.step op).store = { (s.commit (s.nodes.map f) s.edges).store with pinned := pins }

theorem Adjusts.ids {s : Session α} {op : Operation α} {f : Node α → Node α} {pins : List String}
    (h : Adjusts s op f pins) : (s.nodes.map f).map Node.id = s.nodes.map Node.id := by
  rw [List.map_map]
  exact List.map_congr_left fun n _ => h.id n

theorem Adjusts.models {s : Session α} {op : Operation α} {f : Node α → Node α}
    {pins : List String} (h : Adjusts s op f pins) :
    (s.nodes.map f).map Node.model = s.nodes.map Node.model := by
  rw [List.map_map]
  exact List.map_congr_left fun n _ => h.model n

theorem Adjusts.nodes {s : Session α} {op : Operation α} {f : Node α → Node α} {pins : List String}
    (h : Adjusts s op f pins) : (s.step op).nodes = s.nodes.map f := by
  rw [show (s.step op).nodes = _ from congrArg Store.nodes h.store, commit_eq]
  rfl

theorem Adjusts.edges {s : Session α} {op : Operation α} {f : Node α → Node α} {pins : List String}
    (h : Adjusts s op f pins) : (s.step op).edges = s.edges := by
  rw [show (s.step op).edges = _ from congrArg Store.edges h.store, commit_eq]
  rfl

theorem measure_adjusts {s : Session α} {id : String} (h : id ∈ s.nodes.map Node.id)
    (size : Size α) :
    Adjusts s (.measure id size) (fun n => if n.id == id then { n with size := some size } else n)
      s.pinned where
  id n := by split <;> rfl
  model n := by split <;> rfl
  pinned _ hPin := hPin
  committed _ hPin := .inl hPin
  held n _ _ := by split <;> rfl
  store := by
    change (s.updateNode id _).1.store = _
    rw [updateNode, if_pos ((any_id_iff s id).mpr h), commit_eq]
    rfl

theorem move_adjusts {s : Session α} {id : String} (h : id ∈ s.nodes.map Node.id)
    (position : Position α) :
    Adjusts s (.move id position) (fun n => if n.id == id then { n with position } else n)
      (if s.pinned.contains id then s.pinned else s.pinned ++ [id]) where
  id n := by split <;> rfl
  model n := by split <;> rfl
  pinned other hPin := by
    split
    · exact hPin
    · exact List.mem_append_left _ hPin
  committed other hPin := by
    split at hPin
    · exact .inl hPin
    · rcases List.mem_append.mp hPin with hPin | hPin
      · exact .inl hPin
      · exact .inr (List.mem_singleton.mp hPin ▸ h)
  held n _ hMoves := by
    have hOther : n.id ≠ id := fun hSame =>
      hMoves ⟨position, by rw [hSame], (move_snd_iff s n.id position).mpr (hSame ▸ h)⟩
    simp [hOther]
  store := by
    change (s.move id position).1.store = _
    rw [move, if_pos ((node?_isSome_iff s id).mpr h), updateNode,
      if_pos ((any_id_iff _ id).mpr h), commit_eq, commit_eq]
    rfl

/-! ## Settling a pass -/

structure Applies (s : Session α) (op : Operation α) (p : Pass α) (placed : List (Node α)) :
    Prop where
  settles : ∃ service, op = .settle p.token service ∧
    p.result service s.layoutOptions = .ok placed
  inFlight : (s.inFlight.find? fun q => q.token == p.token) = some p
  newest : p.token = s.passes

def Fails (s : Session α) (op : Operation α) : Prop :=
  ∃ p ∈ s.inFlight, ∃ service e, op = .settle p.token service ∧
    p.result service s.layoutOptions = .error e

/-- What the settling of a pass does if it is not applied: a pass that is not in flight does
nothing, a stale one is forgotten, and a failure of the newest one is told. -/
inductive Idles (s : Session α) (token : Nat) (service : Service α) : Session α → Prop where
  | absent (h : ∀ p ∈ s.inFlight, p.token ≠ token) : Idles s token service s
  | stale (p : Pass α) (hIn : p ∈ s.inFlight) (hToken : p.token = token) (h : token ≠ s.passes) :
      Idles s token service (s.without token)
  | failed (p : Pass α) (e : Layout.Error) (hIn : p ∈ s.inFlight) (hToken : p.token = token)
      (h : token = s.passes) (hResult : p.result service s.layoutOptions = .error e) :
      Idles s token service
        ((s.without token).publish .layoutPostponed (.postponed e.message) none)

theorem settle_of_find? {s : Session α} {p : Pass α} {token : Nat}
    (h : (s.inFlight.find? fun q => q.token == token) = some p) (service : Service α) :
    s.settle service token =
      if token ≠ s.passes then s.without token
      else match p.result service s.layoutOptions with
        | .ok placed => (s.without token).applyPass p placed
        | .error e => (s.without token).publish .layoutPostponed (.postponed e.message) none := by
  have hToken : p.token = token := by simpa using List.find?_some h
  subst hToken
  unfold settle
  rw [h]
  change s.settlePass service p = _
  unfold settlePass
  by_cases hNewest : p.token = s.passes
  · rw [if_neg (by simpa [without] using hNewest), if_neg (not_not.mpr hNewest)]
    rfl
  · rw [if_pos (by simpa [without] using hNewest), if_pos hNewest]

theorem settle_cases (s : Session α) (token : Nat) (service : Service α) :
    Idles s token service (s.step (.settle token service)) ∨
      ∃ p placed, Applies s (.settle token service) p placed := by
  change Idles s token service (s.settle service token) ∨ _
  cases hFind : s.inFlight.find? fun q => q.token == token with
  | none =>
    have hSame : s.settle service token = s := by
      unfold settle
      rw [hFind]
    rw [hSame]
    exact .inl (.absent fun p hp => by simpa using List.find?_eq_none.mp hFind p hp)
  | some p =>
    have hIn : p ∈ s.inFlight := List.mem_of_find?_eq_some hFind
    have hToken : p.token = token := by simpa using List.find?_some hFind
    rw [settle_of_find? hFind service]
    by_cases hNewest : token = s.passes
    · rw [if_neg (not_not.mpr hNewest)]
      cases hResult : p.result service s.layoutOptions with
      | error e => exact .inl (.failed p e hIn hToken hNewest hResult)
      | ok placed =>
        exact .inr ⟨p, placed, ⟨service, by rw [hToken], hResult⟩, by rw [hToken]; exact hFind,
          hToken.trans hNewest⟩
    · rw [if_pos hNewest]
      exact .inl (.stale p hIn hToken hNewest)

theorem Idles.store {s t : Session α} {token : Nat} {service : Service α}
    (h : Idles s token service t) : t.store = s.store := by cases h <;> rfl

theorem Applies.step_eq {s : Session α} {op : Operation α} {p : Pass α} {placed : List (Node α)}
    (h : Applies s op p placed) : s.step op = (s.without p.token).applyPass p placed := by
  obtain ⟨service, rfl, hResult⟩ := h.settles
  change s.settle service p.token = _
  rw [settle_of_find? h.inFlight service, if_neg (not_not.mpr h.newest), hResult]

theorem Applies.adjusts {s : Session α} {op : Operation α} {p : Pass α} {placed : List (Node α)}
    (h : Applies s op p placed) : Adjusts s op (s.merged p placed) s.pinned where
  id := merged_id s p placed
  model := merged_model s p placed
  pinned _ hPin := hPin
  committed _ hPin := .inl hPin
  held n hPin _ := by rw [merged_of_pinned hPin]
  store := by
    rw [h.step_eq, applyPass_store, commit_eq, commit_eq]
    rfl

/-! ## All steps -/

theorem step_measure_of_not_mem {s : Session α} {id : String} (h : id ∉ s.nodes.map Node.id)
    (size : Size α) : s.measure id size = (s, false) :=
  if_neg (mt (any_id_iff s id).mp h)

theorem step_move_of_not_mem {s : Session α} {id : String} (h : id ∉ s.nodes.map Node.id)
    (position : Position α) : s.move id position = (s, false) :=
  if_neg (mt (node?_isSome_iff s id).mp h)

/-- A step that does not rebuild the view adjusts its nodes, or keeps all that is stored. -/
theorem step_keeps_or_adjusts {op : Operation α} (h : op.models? = none) (s : Session α) :
    (s.step op).store = s.store ∨ ∃ f pins, Adjusts s op f pins := by
  cases op with
  | setSource source => cases h
  | setDeclarations ds => cases h
  | measure id size =>
    by_cases hIn : id ∈ s.nodes.map Node.id
    · exact .inr ⟨_, _, measure_adjusts hIn size⟩
    · exact .inl (by rw [step, step_measure_of_not_mem hIn])
  | move id position =>
    by_cases hIn : id ∈ s.nodes.map Node.id
    · exact .inr ⟨_, _, move_adjusts hIn position⟩
    · exact .inl (by rw [step, step_move_of_not_mem hIn])
  | settle token service =>
    rcases settle_cases s token service with hIdle | ⟨p, placed, hApplies⟩
    · exact .inl hIdle.store
    · exact .inr ⟨_, _, hApplies.adjusts⟩
  | frame => exact .inl (frame_store s)
  | noticeViewport | toggleAutoFit | toggleDirection | requestLayout | layoutNow | begin token
  | cancel token | close => exact .inl rfl

/-! ## Layout options -/

omit [Coordinate α] in
theorem fitView_layoutOptions (s : Session α) : s.fitView.layoutOptions = s.layoutOptions := by
  unfold fitView
  split <;> rfl

theorem commit_layoutOptions (s : Session α) (nodes : List (Node α)) (edges : List Edge) :
    (s.commit nodes edges).layoutOptions = s.layoutOptions := by rw [commit_eq]

theorem setModels_layoutOptions (s : Session α) (models : List Model) :
    (s.setModels models).layoutOptions = s.layoutOptions := by
  rw [setModels_eq]
  exact commit_layoutOptions s _ _

theorem updateNode_layoutOptions (s : Session α) (id : String) (change : Node α → Node α) :
    (s.updateNode id change).1.layoutOptions = s.layoutOptions := by
  unfold updateNode
  split
  · exact commit_layoutOptions s _ _
  · rfl

theorem step_layoutOptions (s : Session α) (op : Operation α) :
    (s.step op).layoutOptions = s.layoutOptions := by
  cases op with
  | setSource source | setDeclarations ds => exact setModels_layoutOptions s _
  | measure id size => exact updateNode_layoutOptions s id _
  | move id position =>
    change (s.move id position).1.layoutOptions = _
    unfold move
    split
    · exact updateNode_layoutOptions _ id _
    · rfl
  | settle token service =>
    rcases settle_cases s token service with hIdle | ⟨p, placed, hApplies⟩
    · generalize s.step (.settle token service) = t at hIdle
      cases hIdle <;> rfl
    · rw [hApplies.step_eq, applyPass_eq, fitView_layoutOptions]
      exact commit_layoutOptions _ _ _
  | frame => exact frame_keeps layoutOptions (fun _ _ => rfl) (fun _ => rfl) s
  | noticeViewport | toggleAutoFit | toggleDirection | requestLayout | layoutNow | begin token
  | cancel token | close => rfl

theorem run_layoutOptions (s : Session α) (ops : List (Operation α)) :
    (s.run ops).layoutOptions = s.layoutOptions := by
  induction ops using List.reverseRecOn with
  | nil => rfl
  | append_singleton ops op ih => rw [run_concat, step_layoutOptions, ih]

end TypeDiagram.Session
