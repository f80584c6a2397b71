import TypeDiagram.Proofs.Session.Batch
import TypeDiagram.Proofs.Session.Postponement
import TypeDiagram.Proofs.Sequence

/-! # The view is fitted behind an application and nowhere else

A pass that is applied fits the view if the view is fitted by itself at that moment; no other step
does. So a fit stands in the log right behind the application that it belongs to, and a view that
the user moved is left alone until fitting or the direction is toggled, whatever passes were in
flight by then. The first fit takes no time, and all later ones take half a second.
-/

namespace TypeDiagram.Session

open Diagram

variable {α : Type}

def fitsOf (log : List (Event Notice)) : List (Event Notice) :=
  log.filter fun e => e.kind == .fitView

def fitEvent (direction : Direction) (duration : Nat) : Event Notice :=
  ⟨.fitView, none, .fit direction.fitPadding duration⟩

/-- Every fit stands right behind the application of a pass. -/
def FitsFollow (log : List (Event Notice)) : Prop :=
  ∀ before e after, log = before ++ e :: after → e.kind = .fitView →
    ∃ earlier token, before = earlier ++ [⟨.layoutApplied, none, .applied token⟩]

/-! ## Logs -/

theorem fitsOf_append (log more : List (Event Notice)) :
    fitsOf (log ++ more) = fitsOf log ++ fitsOf more := List.filter_append ..

theorem fitsOf_of_kinds {told : List (Event Notice)} (h : ∀ e ∈ told, e.kind ≠ .fitView) :
    fitsOf told = [] := by
  rw [fitsOf, List.filter_eq_nil_iff]
  exact fun e he => by simpa using h e he

theorem FitsFollow.concat {log : List (Event Notice)} (h : FitsFollow log) {last : Event Notice}
    (hLast : last.kind = .fitView →
      ∃ earlier token, log = earlier ++ [⟨.layoutApplied, none, .applied token⟩]) :
    FitsFollow (log ++ [last]) := by
  intro before e after hSplit hKind
  rcases concat_eq_append_cons_iff.mp hSplit with ⟨rfl, rfl, _⟩ | ⟨rest, hRest, _⟩
  · exact hLast hKind
  · exact h before e rest hRest hKind

theorem FitsFollow.append_of_kinds {log told : List (Event Notice)} (h : FitsFollow log)
    (hKinds : ∀ e ∈ told, e.kind ≠ .fitView) : FitsFollow (log ++ told) := by
  induction told using List.reverseRecOn with
  | nil => rwa [List.append_nil]
  | append_singleton told last ih =>
    rw [← List.append_assoc]
    have hTold := ih fun e he => hKinds e (List.mem_append_left _ he)
    exact hTold.concat fun hFit => absurd hFit (hKinds last (by simp))

/-! ## What a step asks for -/

def nextFits (s : Session α) : List (Event Notice) :=
  if s.options.autoFitView = true then
    [fitEvent s.options.direction (if s.fittedOnce then fitDuration else 0)]
  else []

theorem fitView_log (s : Session α) : s.fitView.log = s.log ++ s.nextFits := by
  unfold fitView nextFits
  split
  · rfl
  · exact (List.append_nil _).symm

theorem fitView_fittedOnce (s : Session α) :
    s.fitView.fittedOnce = (s.fittedOnce || s.options.autoFitView) := by
  unfold fitView
  split
  · rename_i hAuto
    rw [hAuto, Bool.or_true]
    rfl
  · rename_i hAuto
    rw [Bool.eq_false_iff.mpr hAuto, Bool.or_false]

theorem fitsOf_nextFits (s : Session α) : fitsOf s.nextFits = s.nextFits := by
  unfold nextFits
  split <;> rfl

theorem fitView_options (s : Session α) : s.fitView.options = s.options := by
  unfold fitView
  split <;> rfl

/-- What happened between two states asked for no fit. -/
structure AsksNoFit (s t : Session α) : Prop where
  fittedOnce : t.fittedOnce = s.fittedOnce
  told : ∃ told, t.log = s.log ++ told ∧ ∀ e ∈ told, e.kind ≠ .fitView

theorem asksNoFit_of_same {s t : Session α} (hFitted : t.fittedOnce = s.fittedOnce)
    (hLog : t.log = s.log) : AsksNoFit s t :=
  ⟨hFitted, [], hLog.trans (List.append_nil _).symm, fun _ he => absurd he List.not_mem_nil⟩

theorem AsksNoFit.fitsOf_log {s t : Session α} (h : AsksNoFit s t) :
    fitsOf t.log = fitsOf s.log := by
  obtain ⟨told, hLog, hKinds⟩ := h.told
  rw [hLog, fitsOf_append, fitsOf_of_kinds hKinds, List.append_nil]

theorem AsksNoFit.trans {s t u : Session α} (h : AsksNoFit s t) (h' : AsksNoFit t u) :
    AsksNoFit s u := by
  obtain ⟨told, hLog, hKinds⟩ := h.told
  obtain ⟨more, hMore, hOthers⟩ := h'.told
  refine ⟨h'.fittedOnce.trans h.fittedOnce, told ++ more, ?_, ?_⟩
  · rw [hMore, hLog, List.append_assoc]
  · exact fun e he => (List.mem_append.mp he).elim (hKinds e) (hOthers e)

variable [Coordinate α]

theorem asksNoFit_commit (s : Session α) (nodes : List (Node α)) (edges : List Edge) :
    AsksNoFit s (s.commit nodes edges) := by
  rw [commit_eq]
  exact ⟨rfl, _, rfl, fun e he => by rw [List.mem_singleton.mp he]; exact EventKind.noConfusion⟩

theorem asksNoFit_setModels (s : Session α) (models : List Model) :
    AsksNoFit s (s.setModels models) := by
  rw [setModels_eq]
  refine (asksNoFit_commit s _ _).trans ⟨rfl, _, rfl, fun e he => ?_⟩
  rw [kind_of_mem_invalidations he]
  exact EventKind.noConfusion

theorem asksNoFit_updateNode (s : Session α) (id : String) (change : Node α → Node α) :
    AsksNoFit s (s.updateNode id change).1 := by
  unfold updateNode
  split
  · exact asksNoFit_commit s _ _
  · exact asksNoFit_of_same rfl rfl

theorem asksNoFit_move (s : Session α) (id : String) (position : Position α) :
    AsksNoFit s (s.move id position).1 := by
  unfold move
  split
  · have hUpdate := asksNoFit_updateNode
      { s with pinned := if s.pinned.contains id then s.pinned else s.pinned ++ [id] } id
      fun n => { n with position }
    exact ⟨hUpdate.fittedOnce, hUpdate.told⟩
  · exact asksNoFit_of_same rfl rfl

theorem Idles.asksNoFit {s t : Session α} {token : Nat} {service : Service α}
    (h : Idles s token service t) : AsksNoFit s t := by
  cases h with
  | absent | stale => exact asksNoFit_of_same rfl rfl
  | failed =>
    exact ⟨rfl, _, rfl, fun e he => by rw [List.mem_singleton.mp he]; exact EventKind.noConfusion⟩

theorem asksNoFit_step {s : Session α} {op : Operation α}
    (h : ∀ p placed, ¬ Applies s op p placed) : AsksNoFit s (s.step op) := by
  cases op with
  | setSource source | setDeclarations ds => exact asksNoFit_setModels s _
  | measure id size => exact asksNoFit_updateNode s id _
  | move id position => exact asksNoFit_move s id position
  | frame =>
    exact asksNoFit_of_same (frame_keeps fittedOnce (fun _ _ => rfl) (fun _ => rfl) s) (frame_log s)
  | settle token service =>
    rcases settle_cases s token service with hIdle | ⟨p, placed, hApplies⟩
    · exact hIdle.asksNoFit
    · exact absurd hApplies (h p placed)
  | noticeViewport | toggleAutoFit | toggleDirection | requestLayout | layoutNow | begin token
  | cancel token | close => exact asksNoFit_of_same rfl rfl

section Applies

variable {s : Session α} {op : Operation α} {p : Pass α} {placed : List (Node α)}
  (h : Applies s op p placed)

include h

theorem Applies.options : (s.step op).options = s.options := by
  rw [h.step_eq, applyPass_eq, fitView_options, commit_eq]
  rfl

theorem Applies.fittedOnce :
    (s.step op).fittedOnce = (s.fittedOnce || s.options.autoFitView) := by
  rw [h.step_eq, applyPass_eq, fitView_fittedOnce, commit_eq]
  rfl

/-- An application tells that a view was committed and that the pass was applied, and asks for a fit
if the view is fitted by itself. -/
theorem Applies.log : (s.step op).log = s.log ++
    [⟨.stateCommitted, none, .committed s.nodes.length s.edges.length⟩] ++
    [⟨.layoutApplied, none, .applied p.token⟩] ++ s.nextFits := by
  have hNodes : ((s.without p.token).nodes.map ((s.without p.token).merged p placed)).length =
      s.nodes.length := List.length_map _
  rw [h.step_eq, applyPass_eq, fitView_log, commit_eq, hNodes]
  rfl

theorem Applies.fitsOf_log : fitsOf (s.step op).log = fitsOf s.log ++ s.nextFits := by
  rw [h.log, fitsOf_append, fitsOf_nextFits, fitsOf_append, fitsOf_append]
  simp [fitsOf]

end Applies

/-- The step asks for a fit of the view. -/
def AsksFit (s : Session α) (op : Operation α) : Prop :=
  ∃ told, (s.step op).log = s.log ++ told ∧ ∃ e ∈ told, e.kind = .fitView

variable {s t : Session α} {op : Operation α}

theorem fitsOf_step_of_not
    (h : ¬ (s.options.autoFitView = true ∧ ∃ p placed, Applies s op p placed)) :
    fitsOf (s.step op).log = fitsOf s.log := by
  by_cases hApplies : ∃ p placed, Applies s op p placed
  · have hManual : ¬ s.options.autoFitView = true := fun hAuto => h ⟨hAuto, hApplies⟩
    obtain ⟨p, placed, hApplies⟩ := hApplies
    rw [hApplies.fitsOf_log, nextFits, if_neg hManual, List.append_nil]
  · exact (asksNoFit_step fun p placed hIs => hApplies ⟨p, placed, hIs⟩).fitsOf_log

theorem asksFit_iff : AsksFit s op ↔
    s.options.autoFitView = true ∧ ∃ p placed, Applies s op p placed := by
  constructor
  · rintro ⟨told, hLog, e, he, hKind⟩
    by_contra hNot
    have hSame := fitsOf_step_of_not hNot
    rw [hLog, fitsOf_append, List.append_right_eq_self] at hSame
    have hIn : e ∈ fitsOf told := List.mem_filter.mpr ⟨he, beq_iff_eq.mpr hKind⟩
    rw [hSame] at hIn
    cases hIn
  · rintro ⟨hAuto, p, placed, hApplies⟩
    have hLog := hApplies.log
    rw [List.append_assoc, List.append_assoc, nextFits, if_pos hAuto] at hLog
    exact ⟨_, hLog, _,
      List.mem_append_right _ (List.mem_append_right _ (List.mem_singleton_self _)), rfl⟩

/-- A view that is not fitted by itself stays so until the user turns fitting or the direction. -/
theorem not_autoFit_step (h : s.options.autoFitView = false)
    (hOp : op ≠ .toggleAutoFit ∧ op ≠ .toggleDirection) :
    (s.step op).options.autoFitView = false := by
  cases op with
  | setSource source | setDeclarations ds =>
    rw [step_of_models?_eq_some rfl, options_setModels, h]
  | measure id size => rw [step, measure, options_updateNode, h]
  | move id position => rw [step, options_move, h]
  | frame => rw [step, frame_keeps options (fun _ _ => rfl) (fun _ => rfl), h]
  | settle token service =>
    rcases settle_cases s token service with hIdle | ⟨p, placed, hApplies⟩
    · generalize s.step (.settle token service) = t at hIdle
      cases hIdle <;> exact h
    · rw [hApplies.options, h]
  | toggleAutoFit => exact absurd rfl hOp.1
  | toggleDirection => exact absurd rfl hOp.2
  | noticeViewport => rfl
  | requestLayout | layoutNow | begin token | cancel token | close => exact h

/-! ## Runs -/

theorem fitsOf_run_of_manual {between : List (Operation α)}
    (hBetween : ∀ op ∈ between, op ≠ .toggleAutoFit ∧ op ≠ .toggleDirection)
    (h : s.options.autoFitView = false) : fitsOf (s.run between).log = fitsOf s.log := by
  induction between generalizing s with
  | nil => rfl
  | cons op between ih =>
    obtain ⟨hOp, hRest⟩ := List.forall_mem_cons.mp hBetween
    have hStep : fitsOf (s.step op).log = fitsOf s.log := fitsOf_step_of_not fun hFits => by
      rw [h] at hFits
      cases hFits.1
    exact (ih hRest (not_autoFit_step h hOp)).trans hStep

/-- The fits of the log follow applications, the first one takes no time and the later ones half a
second, and it is remembered whether there was one. -/
structure WellFitted (s : Session α) : Prop where
  follow : FitsFollow s.log
  timed : ∃ directions : List Direction,
    fitsOf s.log = directions.mapIdx fun i direction =>
      fitEvent direction (if i = 0 then 0 else 500)
  known : s.fittedOnce = !(fitsOf s.log).isEmpty

omit [Coordinate α] in
theorem WellFitted.of_asksNoFit (h : WellFitted s) (hNone : AsksNoFit s t) : WellFitted t := by
  obtain ⟨told, hLog, hKinds⟩ := hNone.told
  refine ⟨hLog ▸ h.follow.append_of_kinds hKinds, hNone.fitsOf_log ▸ h.timed, ?_⟩
  rw [hNone.fittedOnce, hNone.fitsOf_log, h.known]

theorem WellFitted.of_applies (h : WellFitted s) {p : Pass α} {placed : List (Node α)}
    (hApplies : Applies s op p placed) : WellFitted (s.step op) := by
  have hFollow : FitsFollow (s.log ++
      [⟨.stateCommitted, none, .committed s.nodes.length s.edges.length⟩] ++
      [⟨.layoutApplied, none, .applied p.token⟩]) :=
    (h.follow.concat (by rintro ⟨⟩)).concat (by rintro ⟨⟩)
  obtain ⟨directions, hTimed⟩ := h.timed
  cases hAuto : s.options.autoFitView with
  | false =>
    have hNone : s.nextFits = [] := by rw [nextFits, hAuto, if_neg Bool.false_ne_true]
    refine ⟨?_, ⟨directions, ?_⟩, ?_⟩
    · rw [hApplies.log, hNone, List.append_nil]
      exact hFollow
    · rw [hApplies.fitsOf_log, hNone, List.append_nil, hTimed]
    · rw [hApplies.fittedOnce, hApplies.fitsOf_log, hNone, hAuto, h.known, List.append_nil,
        Bool.or_false]
  | true =>
    have hOne : s.nextFits =
        [fitEvent s.options.direction (if directions.length = 0 then 0 else 500)] := by
      have hFirst : s.fittedOnce = !directions.isEmpty := by
        rw [h.known, hTimed]
        cases directions <;> simp
      rw [nextFits, if_pos hAuto, hFirst]
      cases directions <;> rfl
    refine ⟨?_, ⟨directions ++ [s.options.direction], ?_⟩, ?_⟩
    · rw [hApplies.log, hOne]
      exact hFollow.concat fun _ => ⟨_, _, rfl⟩
    · rw [hApplies.fitsOf_log, hOne, hTimed, List.mapIdx_concat]
    · rw [hApplies.fittedOnce, hApplies.fitsOf_log, hOne, hAuto, Bool.or_true]
      simp

theorem wellFitted_run (options : ViewOptions) (layoutOptions : LayoutOptions)
    (ops : List (Operation α)) : WellFitted ((create options layoutOptions).run ops) := by
  induction ops using List.reverseRecOn with
  | nil =>
    refine ⟨?_, ⟨[], rfl⟩, rfl⟩
    intro before e after hSplit
    simp [run, create] at hSplit
  | append_singleton ops op ih =>
    rw [run_concat]
    by_cases hApplies : ∃ p placed, Applies ((create options layoutOptions).run ops) op p placed
    · obtain ⟨p, placed, hApplies⟩ := hApplies
      exact ih.of_applies hApplies
    · exact ih.of_asksNoFit (asksNoFit_step fun p placed hIs => hApplies ⟨p, placed, hIs⟩)

/-- A fit stands right behind the application of a pass and nowhere else. A step asks for one
exactly if it applies a pass while the view is fitted by itself, which the step leaves as it is. So
nothing fits a view that the user moved until fitting or the direction is toggled, not even a pass
that was started before. The first fit takes no time and all later ones take half a second. -/
theorem fits_follow_applications (options : ViewOptions) (layoutOptions : LayoutOptions)
    (ops : List (Operation α)) :
    let s := (create options layoutOptions).run ops
    (∀ before e after, s.log = before ++ e :: after → e.kind = .fitView →
      ∃ earlier token, before = earlier ++ [⟨.layoutApplied, none, .applied token⟩]) ∧
    (∀ op, AsksFit s op ↔ s.options.autoFitView = true ∧ ∃ p placed, Applies s op p placed) ∧
    (∀ op, AsksFit s op → (s.step op).options = s.options) ∧
    (∀ between, (∀ op ∈ between, op ≠ .toggleAutoFit ∧ op ≠ .toggleDirection) →
      fitsOf ((s.step .noticeViewport).run between).log = fitsOf s.log) ∧
    ∃ directions : List Direction, fitsOf s.log = directions.mapIdx fun i direction =>
      ⟨.fitView, none, .fit direction.fitPadding (if i = 0 then 0 else 500)⟩ := by
  intro s
  have h := wellFitted_run options layoutOptions ops
  refine ⟨h.follow, fun op => asksFit_iff, fun op hAsks => ?_, fun between hBetween => ?_, h.timed⟩
  · obtain ⟨_, p, placed, hApplies⟩ := asksFit_iff.mp hAsks
    exact hApplies.options
  · exact fitsOf_run_of_manual hBetween rfl

/-- The user moves the view while a pass is in flight that would have fitted it. -/
theorem fit_spares_view_moved_by_hand :
    let service : Service Rat := fun _ => .ok []
    let ops := [.setDeclarations ⟨[⟨"A", [], 1⟩], by decide⟩, .frame, .settle 1 service,
      .requestLayout, .frame]
    let s := (create ⟨.horizontal, true, .light, true⟩ .standard).run ops
    let between := [.settle 2 service, .measure "A" ⟨200, 80⟩, .frame, .settle 3 service]
    AsksFit s (.settle 2 service) ∧
      (∀ op ∈ between, op ≠ .toggleAutoFit ∧ op ≠ .toggleDirection) ∧
      ((s.step .noticeViewport).run between).layoutsApplied = 3 ∧
      fitsOf ((s.step .noticeViewport).run between).log = fitsOf s.log ∧
      (∃ direction : Direction,
        fitsOf s.log = [⟨.fitView, none, .fit direction.fitPadding 0⟩]) ∧
      ∃ before e, s.log = before ++ [e] ∧ e.kind = .fitView ∧
        ∃ earlier token, before = earlier ++ [⟨.layoutApplied, none, .applied token⟩] := by
  intro service ops s between
  obtain ⟨hFollow, hAsks, _, hManual, directions, hTimed⟩ :=
    fits_follow_applications ⟨.horizontal, true, .light, true⟩ .standard ops
  have hBetween : ∀ op ∈ between, op ≠ .toggleAutoFit ∧ op ≠ .toggleDirection := by
    simp [between]
  have hApplies : ∃ p placed, Applies s (.settle 2 service) p placed := by
    have hFound : (s.inFlight.find? fun p => p.token == 2).isSome = true := by decide +kernel
    obtain ⟨p, hFind⟩ := Option.isSome_iff_exists.mp hFound
    have hToken : p.token = 2 := by simpa using List.find?_some hFind
    have hNewest : s.passes = 2 := by decide +kernel
    exact ⟨p, _, ⟨service, by rw [hToken], rfl⟩, by rw [hToken]; exact hFind,
      hToken.trans hNewest.symm⟩
  have hOne : directions.length = 1 := by
    rw [← List.length_mapIdx, ← hTimed]
    decide +kernel
  obtain ⟨direction, rfl⟩ := List.length_eq_one_iff.mp hOne
  have hKinds : (s.log.map Event.kind).getLast? = some .fitView := by decide +kernel
  rw [List.getLast?_map] at hKinds
  obtain ⟨e, hLast, hKind⟩ := Option.map_eq_some_iff.mp hKinds
  obtain ⟨before, hSplit⟩ := List.getLast?_eq_some_iff.mp hLast
  exact ⟨(hAsks _).mpr ⟨by decide +kernel, hApplies⟩, hBetween, by decide +kernel,
    hManual between hBetween, ⟨direction, hTimed⟩, before, e, hSplit, hKind,
    hFollow before e [] hSplit hKind⟩

end TypeDiagram.Session
