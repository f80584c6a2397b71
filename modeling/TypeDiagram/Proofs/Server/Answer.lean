import TypeDiagram.Proofs.Session.Immediate
import TypeDiagram.Server.Run

/-! # What an answer does to the open diagrams

An answer changes the diagram that the request is about, and no other. A layout is waited for
without a frame interval passing, so the wait changes no other diagram either. What is not found is
answered without any change.
-/

namespace TypeDiagram

namespace Server

open Diagram

variable {server : Server} {id : String} {s : Session Float}

/-- The second server has the outcome for one diagram, or has it no more, and is the first server
in all else. -/
structure Replaces (server : Server) (id : String) (outcome : Option (Session Float))
    (server' : Server) : Prop where
  environment : server'.environment = server.environment
  idOf : server'.idOf = server.idOf
  created : server'.created = server.created
  get? : ∀ l, server'.diagrams.get? l = if l = id then outcome else server.diagrams.get? l
  distinct : server.diagrams.keys.Nodup → server'.diagrams.keys.Nodup

theorem replaces_put (server : Server) (id : String) (s : Session Float) :
    Replaces server id (some s) (server.put id s) where
  environment := rfl
  idOf := rfl
  created := rfl
  get? := OrderedMap.get?_insert server.diagrams id s
  distinct h := OrderedMap.nodup_keys_insert h id s

theorem replaces_self (server : Server) (id : String) :
    Replaces server id (server.diagrams.get? id) server where
  environment := rfl
  idOf := rfl
  created := rfl
  get? l := by
    split
    · rename_i hSame
      rw [hSame]
    · rfl
  distinct h := h

theorem replaces_drop (server : Server) (id : String) :
    Replaces server id none (server.drop id) where
  environment := rfl
  idOf := rfl
  created := rfl
  get? := OrderedMap.get?_erase server.diagrams id
  distinct h := OrderedMap.nodup_keys_erase h id

theorem Replaces.trans {server' server'' : Server} {before after : Option (Session Float)}
    (h : Replaces server id before server') (h' : Replaces server' id after server'') :
    Replaces server id after server'' where
  environment := h'.environment.trans h.environment
  idOf := h'.idOf.trans h.idOf
  created := h'.created.trans h.created
  get? l := by
    rw [h'.get?, h.get?]
    split <;> rfl
  distinct hNodup := h'.distinct (h.distinct hNodup)

/-- The second server may come some steps after the first one. -/
structure Succeeds (server server' : Server) : Prop where
  environment : server'.environment = server.environment
  idOf : server'.idOf = server.idOf
  created : server.created ≤ server'.created

theorem succeeds_refl (server : Server) : Succeeds server server := ⟨rfl, rfl, Nat.le_refl _⟩

theorem Succeeds.trans {server' server'' : Server} (h : Succeeds server server')
    (h' : Succeeds server' server'') : Succeeds server server'' where
  environment := h'.environment.trans h.environment
  idOf := h'.idOf.trans h.idOf
  created := h.created.trans h'.created

/-- What holds between two steps: the ids of the open diagrams are distinct ids that were given to
diagrams, and no diagram is still at work. -/
structure Sound (server : Server) : Prop where
  distinct : server.diagrams.keys.Nodup
  given : ∀ id s, server.diagrams.get? id = some s → ∃ k < server.created, server.idOf k = id
  tended : ∀ id s, server.diagrams.get? id = some s → s.Tended

/-! ## Calls on one diagram -/

theorem answerFor_of_none (h : server.diagrams.get? id = none) (call : DiagramCall) :
    server.answerFor id call = (server, .diagramNotFound) := by
  unfold answerFor
  rw [h]

theorem answerFor_of_open (h : server.diagrams.get? id = some s) (call : DiagramCall) :
    Replaces server id (answerDiagram id s call).1 (server.answerFor id call).1 ∧
      (server.answerFor id call).2 = (answerDiagram id s call).2 := by
  simp only [answerFor, h]
  rcases answerDiagram id s call with ⟨_ | t, response⟩
  · exact ⟨replaces_drop server id, rfl⟩
  · exact ⟨replaces_put server id t, rfl⟩

theorem tended_chooseDirection (h : s.Tended) (direction : Option Direction) :
    (chooseDirection s direction).Tended := by
  unfold chooseDirection
  split
  · split
    · exact h
    · exact h.step .toggleDirection rfl
  · exact h

theorem tended_chooseAutoFit (h : s.Tended) (autoFitView : Option Bool) :
    (chooseAutoFit s autoFitView).Tended := by
  unfold chooseAutoFit
  split
  · split
    · exact h
    · exact h.step .toggleAutoFit rfl
  · exact h

theorem tended_changeOptions (h : s.Tended) (direction : Option Direction)
    (autoFitView : Option Bool) (theme : Option Theme) (enableMinimap : Option Bool) :
    (changeOptions s direction autoFitView theme enableMinimap).Tended :=
  (tended_chooseAutoFit (tended_chooseDirection h direction) autoFitView).of_store rfl rfl rfl

theorem tended_answerDiagram (h : s.Tended) {call : DiagramCall} {t : Session Float}
    (hOutcome : (answerDiagram id s call).1 = some t) : t.Tended := by
  cases call with
  | delete => cases hOutcome
  | «show» | layout | events limit => exact Option.some.inj hOutcome ▸ h
  | setSource source => exact Option.some.inj hOutcome ▸ h.step (.setSource source) rfl
  | measure node size => exact Option.some.inj hOutcome ▸ h.step (.measure node size) rfl
  | move node position => exact Option.some.inj hOutcome ▸ h.step (.move node position) rfl
  | noticeViewport => exact Option.some.inj hOutcome ▸ h.step .noticeViewport rfl
  | setOptions => exact Option.some.inj hOutcome ▸ tended_changeOptions h _ _ _ _

/-! ## Layouts that are waited for -/

/-- A layout of a diagram is over before the next frame, so it replaces this diagram alone. -/
theorem replaces_awaitIdle (h : server.Sound) (hOpen : server.diagrams.get? id = some s) :
    Replaces server id (some (s.layoutNow.settleAll layeredService))
      ((server.layoutNow id).awaitIdle id Session.idleLimit) := by
  have hTended := h.tended id s hOpen
  obtain ⟨hNoFrame, hNoPass⟩ :=
    (Session.state_eq_idle_iff _).mp hTended.idle_layoutNow_settleAll
  let started := server.put id s.layoutNow
  let settled := started.put id (s.layoutNow.settleAll layeredService)
  have hStarted : started.diagrams.get? id = some s.layoutNow := by
    rw [(replaces_put server id s.layoutNow).get?, if_pos rfl]
  have hSettled : settled.diagrams.get? id = some (s.layoutNow.settleAll layeredService) := by
    rw [(replaces_put started id _).get?, if_pos rfl]
  have hWait : started.awaitIdle id Session.idleLimit = settled := by
    rw [Session.idleLimit, awaitIdle, hStarted]
    simp only [hTended.inFlight_layoutNow, List.isEmpty_cons, Bool.not_false, if_true]
    change awaitIdle id 999 settled = settled
    rw [awaitIdle, hSettled]
    simp only [hNoPass, hNoFrame, List.isEmpty_nil, Bool.not_true, Bool.false_eq_true, if_false]
  have hNow : server.layoutNow id = started := by
    simp only [layoutNow, hOpen]
    rfl
  rw [hNow, hWait]
  exact (replaces_put server id s.layoutNow).trans (replaces_put started id _)

def prepared (s : Session Float) : DiagramCall → Session Float
  | .layout => s.layoutNow.settleAll layeredService
  | _ => s

theorem tended_prepared (h : s.Tended) (call : DiagramCall) : (prepared s call).Tended := by
  cases call with
  | layout => exact h.layoutNow_settleAll layeredService
  | _ => exact h

theorem prepare_of_none (h : server.diagrams.get? id = none) (call : DiagramCall) :
    server.prepare id call = server := by
  cases call with
  | layout => simp only [prepare, layoutNow, Session.idleLimit, awaitIdle, h]
  | _ => rfl

theorem Sound.replaces_prepare (h : server.Sound) (hOpen : server.diagrams.get? id = some s)
    (call : DiagramCall) :
    Replaces server id (some (prepared s call)) (server.prepare id call) := by
  cases call with
  | layout => exact replaces_awaitIdle h hOpen
  | _ => exact hOpen ▸ replaces_self server id

theorem answerCall_of_none (h : server.diagrams.get? id = none) (call : DiagramCall) :
    server.answerCall (.diagram id call) = (server, .diagramNotFound) := by
  rw [answerCall, prepare_of_none h, answerFor_of_none h]

theorem Sound.answerCall_of_open (h : server.Sound) (hOpen : server.diagrams.get? id = some s)
    (call : DiagramCall) :
    Replaces server id (answerDiagram id (prepared s call) call).1
        (server.answerCall (.diagram id call)).1 ∧
      (server.answerCall (.diagram id call)).2 = (answerDiagram id (prepared s call) call).2 := by
  have hPrepared := h.replaces_prepare hOpen call
  have hGet : (server.prepare id call).diagrams.get? id = some (prepared s call) := by
    rw [hPrepared.get?, if_pos rfl]
  obtain ⟨hAnswered, hResponse⟩ := answerFor_of_open hGet call
  exact ⟨hPrepared.trans hAnswered, hResponse⟩

/-! ## Requests -/

theorem id?_of_readCall? {env : Environment} {route : Route} {r : Request} {call : Call}
    (h : readCall? env route r = some call) : call.id? = route.id? := by
  cases route with
  | collection =>
    obtain ⟨members, _, hCreate⟩ := Option.bind_eq_some_iff.mp h
    unfold readCreate? at hCreate
    simp only [Option.bind_eq_bind, Option.bind_eq_some_iff, Option.some.injEq] at hCreate
    obtain ⟨_, _, _, _, _, _, _, _, _, _, rfl⟩ := hCreate
    rfl
  | diagram id | viewport id | layout id =>
    rw [← Option.some.inj h]
    rfl
  | source id | options id =>
    simp only [readCall?, Option.bind_eq_bind, Option.bind_eq_some_iff, Option.some.injEq] at h
    obtain ⟨_, _, _, _, rfl⟩ := h
    rfl
  | events id =>
    simp only [readCall?, Option.bind_eq_bind, Option.bind_eq_some_iff, Option.some.injEq] at h
    obtain ⟨_, _, rfl⟩ := h
    rfl
  | measure id node | move id node =>
    simp only [readCall?, Option.bind_eq_bind, Option.bind_eq_some_iff, Option.some.injEq] at h
    obtain ⟨_, _, rfl⟩ := h
    rfl

theorem id?_of_accept {env : Environment} {r : Request} {call : Call}
    (h : accept env r = .ok call) : call.id? = (Route.ofPath? r.path).bind Route.id? := by
  unfold accept at h
  cases hRoute : Route.ofPath? r.path with
  | none =>
    rw [hRoute] at h
    cases h
  | some route =>
    rw [hRoute] at h
    dsimp only at h
    split at h
    · cases h
    split at h
    · cases h
    cases hCall : readCall? env route r with
    | none =>
      rw [hCall] at h
      cases h
    | some other =>
      rw [hCall] at h
      exact Except.ok.inj h ▸ id?_of_readCall? hCall

theorem addressee?_of_call {r : Request} {call : Call}
    (h : accept server.environment r = .ok call) (hCall : call.id? = some id) :
    server.addressee? r = some id := by
  rw [← hCall, id?_of_accept h, addressee?, h]
  cases call with
  | create source options => cases hCall
  | diagram => rfl

theorem addressee?_of_create {r : Request} {source : String} {options : ViewOptions}
    (h : accept server.environment r = .ok (.create source options)) :
    server.addressee? r = some (server.idOf server.created) := by
  rw [addressee?, h]

/-- What comes of a request: it is refused, it creates a diagram, its diagram is not there, or it
changes its diagram. -/
inductive Outcome (server : Server) (r : Request) : Server × Response → Prop where
  | refused (response : Response) (hAccept : accept server.environment r = .error response) :
      Outcome server r (server, response)
  | creates (source : String) (options : ViewOptions)
      (hAccept : accept server.environment r = .ok (.create source options)) :
      Outcome server r (server.answerCall (.create source options))
  | absent (id : String) (call : DiagramCall)
      (hAccept : accept server.environment r = .ok (.diagram id call))
      (hNone : server.diagrams.get? id = none) : Outcome server r (server, .diagramNotFound)
  | changes (id : String) (call : DiagramCall)
      (hAccept : accept server.environment r = .ok (.diagram id call)) (s : Session Float)
      (hOpen : server.diagrams.get? id = some s) (outcome : Option (Session Float))
      (result : Server × Response) (hReplaces : Replaces server id outcome result.1)
      (hTended : ∀ t, outcome = some t → t.Tended) : Outcome server r result

theorem Sound.answer_outcome (h : server.Sound) (r : Request) :
    Outcome server r (server.answer r) := by
  unfold answer
  cases hAccept : accept server.environment r with
  | error response => exact .refused response hAccept
  | ok call =>
    dsimp only
    cases call with
    | create source options => exact .creates source options hAccept
    | diagram id call =>
      cases hGet : server.diagrams.get? id with
      | none =>
        rw [answerCall_of_none hGet]
        exact .absent id call hAccept hGet
      | some s =>
        exact .changes id call hAccept s hGet _ _ (h.answerCall_of_open hGet call).1
          fun t hOutcome =>
            tended_answerDiagram (tended_prepared (h.tended id s hGet) call) hOutcome

theorem create_eq (server : Server) (source : String) (options : ViewOptions) :
    (server.answerCall (.create source options)).1 =
      { server.put (server.idOf server.created)
          ((Session.create options .standard).setSource source) with
        created := server.created + 1 } := rfl

theorem Outcome.succeeds {r : Request} {result : Server × Response}
    (h : Outcome server r result) : Succeeds server result.1 := by
  cases h with
  | creates => exact ⟨rfl, rfl, Nat.le_succ _⟩
  | changes _ _ _ _ _ _ _ hReplaces =>
    exact ⟨hReplaces.environment, hReplaces.idOf, hReplaces.created.ge⟩
  | _ => exact succeeds_refl server

theorem Outcome.get?_of_ne {r : Request} {result : Server × Response}
    (h : Outcome server r result) (hOther : server.addressee? r ≠ some id) :
    result.1.diagrams.get? id = server.diagrams.get? id := by
  cases h with
  | creates source options hAccept =>
    have hNew : id ≠ server.idOf server.created := by
      rintro rfl
      exact hOther (addressee?_of_create hAccept)
    rw [create_eq, (replaces_put server _ _).get?, if_neg hNew]
  | changes other call hAccept _ _ _ _ hReplaces =>
    have hNew : id ≠ other := by
      rintro rfl
      exact hOther (addressee?_of_call hAccept rfl)
    rw [hReplaces.get?, if_neg hNew]
  | _ => rfl

theorem Outcome.get?_eq_none {r : Request} {result : Server × Response}
    (h : Outcome server r result) (hNone : server.diagrams.get? id = none)
    (hNew : server.created < result.1.created → server.idOf server.created ≠ id) :
    result.1.diagrams.get? id = none := by
  cases h with
  | creates source options hAccept =>
    have hOther := hNew (Nat.lt_succ_self _)
    rw [create_eq, (replaces_put server _ _).get?, if_neg hOther.symm, hNone]
  | changes other _ _ s hOpen _ _ hReplaces =>
    have hOther : id ≠ other := by
      rintro rfl
      cases hNone.symm.trans hOpen
    rw [hReplaces.get?, if_neg hOther, hNone]
  | _ => exact hNone

theorem Sound.of_replaces (h : server.Sound) {outcome : Option (Session Float)} {server' : Server}
    (hGiven : ∃ k < server.created, server.idOf k = id)
    (hReplaces : Replaces server id outcome server')
    (hTended : ∀ t, outcome = some t → t.Tended) : server'.Sound where
  distinct := hReplaces.distinct h.distinct
  given l t hGet := by
    rw [hReplaces.created, hReplaces.idOf]
    rw [hReplaces.get?] at hGet
    split at hGet
    · rename_i hSame
      exact hSame ▸ hGiven
    · exact h.given l t hGet
  tended l t hGet := by
    rw [hReplaces.get?] at hGet
    split at hGet
    · exact hTended t hGet
    · exact h.tended l t hGet

theorem Sound.create (h : server.Sound) (source : String) (options : ViewOptions) :
    (server.answerCall (.create source options)).1.Sound := by
  let more : Server := { server with created := server.created + 1 }
  have hMore : more.Sound :=
    { distinct := h.distinct
      given := fun id s hGet =>
        (h.given id s hGet).imp fun _ hk => ⟨Nat.lt_succ_of_lt hk.1, hk.2⟩
      tended := h.tended }
  refine hMore.of_replaces ⟨server.created, Nat.lt_succ_self _, rfl⟩ (replaces_put more _ _) ?_
  intro t hNew
  rw [← Option.some.inj hNew]
  exact (Session.tended_create options .standard).step (.setSource source) rfl

theorem Sound.of_outcome (h : server.Sound) {r : Request} {result : Server × Response}
    (hOutcome : Outcome server r result) : result.1.Sound := by
  cases hOutcome with
  | creates source options => exact h.create source options
  | changes id _ _ s hOpen _ _ hReplaces hTended =>
    exact h.of_replaces (h.given id s hOpen) hReplaces hTended
  | _ => exact h

/-! ## What is not found -/

theorem unchanged_of_notFound {call : DiagramCall}
    (h : (answerDiagram id (prepared s call) call).2.status = 404) :
    (∀ server : Server, server.prepare id call = server) ∧
      (answerDiagram id s call).1 = some s := by
  cases call with
  | measure node size =>
    refine ⟨fun _ => rfl, ?_⟩
    by_cases hIn : node ∈ s.nodes.map Node.id
    · have hFound := (Session.measure_snd_iff s node size).mpr hIn
      simp [answerDiagram, prepared, hFound, Response.ok] at h
    · exact congrArg (some ∘ Prod.fst) (Session.step_measure_of_not_mem hIn size)
  | move node position =>
    refine ⟨fun _ => rfl, ?_⟩
    by_cases hIn : node ∈ s.nodes.map Node.id
    · have hFound := (Session.move_snd_iff s node position).mpr hIn
      simp [answerDiagram, prepared, hFound, Response.ok] at h
    · exact congrArg (some ∘ Prod.fst) (Session.step_move_of_not_mem hIn position)
  | _ => cases h

theorem Sound.answerFor_of_unchanged (h : server.Sound) (hOpen : server.diagrams.get? id = some s)
    {call : DiagramCall} (hSame : (answerDiagram id s call).1 = some s) :
    (server.answerFor id call).1 = server := by
  simp only [answerFor, hOpen]
  generalize answerDiagram id s call = result at hSame
  obtain ⟨_, response⟩ := result
  cases hSame
  change { server with diagrams := server.diagrams.insert id s } = server
  rw [OrderedMap.insert_of_get? h.distinct hOpen]

theorem Sound.answer_of_notFound (h : server.Sound) {r : Request}
    (hStatus : (server.answer r).2.status = 404) : (server.answer r).1 = server := by
  unfold answer at hStatus ⊢
  cases hAccept : accept server.environment r with
  | error response => rfl
  | ok call =>
    rw [hAccept] at hStatus
    dsimp only at hStatus ⊢
    cases call with
    | create => cases hStatus
    | diagram id call =>
      cases hGet : server.diagrams.get? id with
      | none => rw [answerCall_of_none hGet]
      | some s =>
        rw [(h.answerCall_of_open hGet call).2] at hStatus
        obtain ⟨hPrepare, hSame⟩ := unchanged_of_notFound hStatus
        rw [answerCall, hPrepare]
        exact h.answerFor_of_unchanged hGet hSame

theorem Sound.answer_of_delete (h : server.Sound) {r : Request}
    (hAccept : accept server.environment r = .ok (.diagram id .delete))
    (hStatus : (server.answer r).2.status = 200) :
    (∃ k < server.created, server.idOf k = id) ∧
      (server.answer r).1.diagrams.get? id = none := by
  simp only [answer, hAccept] at hStatus ⊢
  cases hGet : server.diagrams.get? id with
  | none =>
    rw [answerCall_of_none hGet] at hStatus
    cases hStatus
  | some s =>
    refine ⟨h.given id s hGet, ?_⟩
    rw [(h.answerCall_of_open hGet .delete).1.get?, if_pos rfl]
    rfl

end Server

end TypeDiagram
