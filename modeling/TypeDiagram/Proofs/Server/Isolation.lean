import TypeDiagram.Proofs.Server.Run

/-! # Diagrams are isolated from each other

A run of a server is compared with one that leaves out all that is not about one diagram. The server
of the other run may give this diagram another id, so its requests name that id. After every step
that is left out the diagram is the same in both servers, and after every other step too.
-/

namespace TypeDiagram

namespace Server

open Diagram

variable {server : Server} {id id' : String} {s : Session Float}

/-! ## Other ids -/

def Route.withId (id : String) : Route → Route
  | collection => collection
  | diagram _ => diagram id
  | source _ => source id
  | measure _ node => measure id node
  | move _ node => move id node
  | viewport _ => viewport id
  | options _ => options id
  | layout _ => layout id
  | events _ => events id

def Call.withId (id : String) : Call → Call
  | create source options => create source options
  | diagram _ call => diagram id call

/-- The second request asks of the diagram with the given id what the first one asks of its own. -/
structure Request.Transfers (id : String) (r r' : Request) : Prop where
  method : r'.method = r.method
  route : Route.ofPath? r'.path = (Route.ofPath? r.path).map (Route.withId id)
  query : r'.query = r.query
  body : r'.body = r.body

inductive Step.Transfers (id : String) : Step → Step → Prop where
  | request {r r' : Request} (h : r.Transfers id r') : Transfers id (.request r) (.request r')
  | frame : Transfers id .frame .frame

def idMembers : List String := ["id", "deleted"]

def renamedMember (id id' : String) : String × Document Float → String × Document Float
  | (key, .string s) => (key, .string (if idMembers.contains key && s == id then id' else s))
  | m => m

def Response.renamed (id id' : String) (response : Response) : Response :=
  { response with body := response.body.map fun
      | .object members => .object (members.map (renamedMember id id'))
      | d => d }

theorem renamed_ok (id id' : String) (members : List (String × Document Float)) :
    (Response.ok members).renamed id id' = .ok (members.map (renamedMember id id')) := rfl

theorem map_renamed_snapshot (id id' : String) (s : Session Float) :
    (snapshot id s).map (renamedMember id id') = snapshot id' s := by
  simp [snapshot, Session.viewMembers, renamedMember, idMembers, Document.strings]

theorem renamed_problem (id id' : String) (status : Nat) (detail : String) :
    (Response.problem status detail).renamed id id' = .problem status detail := by
  simp [Response.renamed, Response.problem, renamedMember, idMembers]

theorem answerDiagram_withId (id id' : String) (s : Session Float) (call : DiagramCall) :
    answerDiagram id' s call =
      ((answerDiagram id s call).1, (answerDiagram id s call).2.renamed id id') := by
  cases call with
  | «show» | layout | setOptions => simp only [answerDiagram, renamed_ok, map_renamed_snapshot]
  | delete | noticeViewport | events =>
    simp [answerDiagram, renamed_ok, renamedMember, idMembers]
  | setSource source =>
    simp only [answerDiagram, renamed_ok, List.map_cons, map_renamed_snapshot]
    rfl
  | measure node size | move node position =>
    simp only [answerDiagram]
    split
    · rw [renamed_ok, map_renamed_snapshot]
    · rw [Response.nodeNotFound, renamed_problem]

theorem readCreate?_withId (env : Environment) (members : List (String × Document Amount)) :
    (readCreate? env members).map (Call.withId id) = readCreate? env members := by
  unfold readCreate?
  simp only [Option.bind_eq_bind, Option.map_bind, Function.comp_def, Option.map_some, Call.withId]

theorem readCall?_withId {env : Environment} {route : Route} {r r' : Request}
    (h : r.Transfers id r') :
    readCall? env (route.withId id) r' = (readCall? env route r).map (Call.withId id) := by
  unfold readCall?
  rw [h.body, h.query, h.method]
  cases route with
  | collection =>
    simp only [Route.withId, Option.bind_eq_bind, Option.map_bind, Function.comp_def,
      readCreate?_withId]
  | _ => simp [Route.withId, Call.withId, Option.map_bind, Function.comp_def]

theorem accept_withId {env : Environment} {r r' : Request} (h : r.Transfers id r')
    (hRoute : (Route.ofPath? r.path).isSome = true) :
    accept env r' = (accept env r).map (Call.withId id) := by
  obtain ⟨route, hRoute⟩ := Option.isSome_iff_exists.mp hRoute
  have hMethods : (route.withId id).methods = route.methods := by cases route <;> rfl
  have hBody : (route.withId id).takesBody = route.takesBody := by cases route <;> rfl
  unfold accept
  rw [h.route, hRoute]
  simp only [Option.map_some, hMethods, hBody, h.method, h.body, readCall?_withId h]
  split
  · rfl
  split
  · rfl
  cases readCall? env route r <;> rfl

theorem renamed_of_refused {env : Environment} {r : Request} {response : Response}
    (h : accept env r = .error response) : response.renamed id id' = response := by
  unfold accept at h
  split at h
  · rw [← Except.error.inj h]
    split
    · rfl
    · exact renamed_problem ..
  · split at h
    · rw [← Except.error.inj h]
      exact renamed_problem ..
    split at h
    · rw [← Except.error.inj h]
      exact renamed_problem ..
    split at h
    · rw [← Except.error.inj h]
      rfl
    · cases h

theorem isSome_route_of_addressee {r : Request} (h : server.addressee? r = some id) :
    (Route.ofPath? r.path).isSome = true := by
  cases hRoute : Route.ofPath? r.path with
  | some route => rfl
  | none => simp [addressee?, accept, hRoute] at h

/-! ## Two runs -/

/-- The second server has, under the id that it gives first, the diagram that the first server has
under the id that it gives as the given one. -/
structure Follows (k : Nat) (id id' : String) (server server' : Server) : Prop where
  environment : server'.environment = server.environment
  idOf : server.idOf k = id
  idOf' : server'.idOf 0 = id'
  own : server'.diagrams.get? id' = server.diagrams.get? id
  fresh : server.created ≤ k → server'.created = 0
  sound : server.Sound
  sound' : server'.Sound

variable {k : Nat} {server' : Server} {r r' : Request}

theorem Follows.frame (h : Follows k id id' server server') :
    Follows k id id' server.frame server'.frame where
  environment := h.environment
  idOf := h.idOf
  idOf' := h.idOf'
  own := by rw [get?_frame, get?_frame, h.own]
  fresh := h.fresh
  sound := h.sound.frame
  sound' := h.sound'.frame

theorem Follows.skip (h : Follows k id id' server server')
    (hOther : server.addressee? r ≠ some id) : Follows k id id' (server.answer r).1 server' :=
  have hOutcome := h.sound.answer_outcome r
  { environment := h.environment.trans hOutcome.succeeds.environment.symm
    idOf := by rw [hOutcome.succeeds.idOf, h.idOf]
    idOf' := h.idOf'
    own := by rw [hOutcome.get?_of_ne hOther, h.own]
    fresh := fun hFew => h.fresh (hOutcome.succeeds.created.trans hFew)
    sound := h.sound.of_outcome hOutcome
    sound' := h.sound' }

theorem Follows.answerCall (h : Follows k id id' server server') (call : DiagramCall) :
    (server'.answerCall (.diagram id' call)).2 =
        (server.answerCall (.diagram id call)).2.renamed id id' ∧
      (server'.answerCall (.diagram id' call)).1.diagrams.get? id' =
        (server.answerCall (.diagram id call)).1.diagrams.get? id ∧
      (server'.answerCall (.diagram id' call)).1.created = server'.created ∧
      (server.answerCall (.diagram id call)).1.created = server.created := by
  cases hGet : server.diagrams.get? id with
  | none =>
    have hGet' := h.own.trans hGet
    rw [answerCall_of_none hGet, answerCall_of_none hGet']
    exact ⟨(renamed_problem ..).symm, h.own, rfl, rfl⟩
  | some s =>
    obtain ⟨hReplaces, hResponse⟩ := h.sound.answerCall_of_open hGet call
    obtain ⟨hReplaces', hResponse'⟩ := h.sound'.answerCall_of_open (h.own.trans hGet) call
    have hSame := answerDiagram_withId id id' (prepared s call) call
    rw [hResponse, hResponse', hReplaces.get?, hReplaces'.get?, if_pos rfl, if_pos rfl, hSame]
    exact ⟨rfl, rfl, hReplaces'.created, hReplaces.created⟩

theorem Follows.create (h : Follows k id id' server server') (source : String)
    (options : ViewOptions) (hGiven : server.created = k) :
    let call := Call.create source options
    (server'.answerCall call).2 = (server.answerCall call).2.renamed id id' ∧
      (server'.answerCall call).1.diagrams.get? id' = (server.answerCall call).1.diagrams.get? id ∧
      (server.answerCall call).1.created = k + 1 := by
  intro call
  have hNew : server.idOf server.created = id := by rw [hGiven, h.idOf]
  have hNew' : server'.idOf server'.created = id' := by rw [h.fresh hGiven.le, h.idOf']
  let s := (Session.create options .standard : Session Float).setSource source
  have hResponse (t : Server) : (t.answerCall call).2 = .ok (snapshot (t.idOf t.created) s) := rfl
  have hOpen (t : Server) :
      (t.answerCall call).1.diagrams.get? (t.idOf t.created) = some s := by
    rw [create_eq, (replaces_put t _ s).get?, if_pos rfl]
  refine ⟨?_, ?_, congrArg Nat.succ hGiven⟩
  · rw [hResponse, hResponse, hNew, hNew', renamed_ok, map_renamed_snapshot]
  · rw [← hNew, ← hNew', hOpen, hOpen]

/-- A request that is about the diagram has the same answer from both servers but for the id. -/
theorem Follows.answer (h : Follows k id id' server server')
    (hAddressee : server.addressee? r = some id) (hTransfers : r.Transfers id' r')
    (hNew : ∀ j < (server.answer r).1.created, server.idOf j = id → j = k) :
    (server'.answer r').2 = (server.answer r).2.renamed id id' ∧
      Follows k id id' (server.answer r).1 (server'.answer r').1 := by
  have hOutcome := h.sound.answer_outcome r
  have hOutcome' := h.sound'.answer_outcome r'
  have hAccept' : accept server'.environment r' =
      (accept server.environment r).map (Call.withId id') := by
    rw [h.environment]
    exact accept_withId hTransfers (isSome_route_of_addressee hAddressee)
  suffices hAnswer : (server'.answer r').2 = (server.answer r).2.renamed id id' ∧
      (server'.answer r').1.diagrams.get? id' = (server.answer r).1.diagrams.get? id ∧
      ((server.answer r).1.created ≤ k → (server'.answer r').1.created = 0) by
    refine ⟨hAnswer.1, ?_⟩
    exact {
      environment := by
        rw [hOutcome.succeeds.environment, hOutcome'.succeeds.environment, h.environment]
      idOf := by rw [hOutcome.succeeds.idOf, h.idOf]
      idOf' := by rw [hOutcome'.succeeds.idOf, h.idOf']
      own := hAnswer.2.1
      fresh := hAnswer.2.2
      sound := h.sound.of_outcome hOutcome
      sound' := h.sound'.of_outcome hOutcome' }
  unfold Server.answer at hNew ⊢
  rw [hAccept']
  cases hAccept : accept server.environment r with
  | error response => exact ⟨(renamed_of_refused hAccept).symm, h.own, h.fresh⟩
  | ok call =>
    rw [hAccept] at hNew
    cases call with
    | create source options =>
      have hId : server.idOf server.created = id :=
        Option.some.inj ((addressee?_of_create hAccept).symm.trans hAddressee)
      have hGiven := hNew server.created (Nat.lt_succ_self _) hId
      obtain ⟨hResponse, hOwn, hCreated⟩ := h.create source options hGiven
      refine ⟨hResponse, hOwn, fun hFew => ?_⟩
      exact absurd (hCreated.ge.trans hFew) (Nat.not_succ_le_self k)
    | diagram l call =>
      obtain rfl : l = id :=
        Option.some.inj ((addressee?_of_call hAccept rfl).symm.trans hAddressee)
      obtain ⟨hResponse, hOwn, hCreated', hCreated⟩ := h.answerCall call
      refine ⟨hResponse, hOwn, fun hFew => ?_⟩
      exact hCreated'.trans (h.fresh (hCreated ▸ hFew))

/-- What a run answers of the exchanges that are about the diagram is what the other run answers. -/
theorem Follows.exchanges (h : Follows k id id' server server') {steps steps' : List Step}
    (hSteps : List.Forall₂ (Step.Transfers id')
      ((server.exchangesOn id steps).map Exchange.step) steps')
    (hNew : ∀ j < (server.run steps).created, server.idOf j = id → j = k) :
    (server'.exchanges steps').map Exchange.response =
      (server.exchangesOn id steps).map fun e => e.response.map (Response.renamed id id') := by
  -- The second run is consumed only by what the first keeps, so the induction is on the first.
  induction steps generalizing server server' steps' with
  | nil =>
    cases hSteps
    rfl
  | cons step steps ih =>
    have hSound := h.sound.step step
    have hIds := (h.sound.succeeds_step step).idOf
    have hLater : ∀ j < ((server.step step).run steps).created,
        (server.step step).idOf j = id → j = k := fun j hj hId => hNew j hj (hIds ▸ hId)
    cases step with
    | frame =>
      cases hSteps with
      | cons hFirst hRest =>
        cases hFirst with
        | frame => exact congrArg (_ :: ·) (ih h.frame hRest hLater)
    | request r =>
      by_cases hAddressee : server.addressee? r = some id
      · have hKept : server.exchangesOn id (.request r :: steps) =
            server.exchange (.request r) :: (server.answer r).1.exchangesOn id steps :=
          List.filter_cons_of_pos (beq_iff_eq.mpr hAddressee)
        rw [hKept] at hSteps ⊢
        cases hSteps with
        | cons hFirst hRest =>
          cases hFirst with
          | request hTransfers =>
            have hNow : ∀ j < (server.answer r).1.created, server.idOf j = id → j = k :=
              fun j hj => hNew j (Nat.lt_of_lt_of_le hj (hSound.succeeds_run steps).created)
            obtain ⟨hResponse, hNext⟩ := h.answer hAddressee hTransfers hNow
            rw [List.map_cons, ← ih hNext hRest hLater]
            exact congrArg (some · :: _) hResponse
      · have hLeft : server.exchangesOn id (.request r :: steps) =
            (server.answer r).1.exchangesOn id steps :=
          List.filter_cons_of_neg (mt beq_iff_eq.mp hAddressee)
        rw [hLeft] at hSteps ⊢
        exact ih (h.skip hAddressee) hSteps hLater

/-- The answers on a diagram are those of the run that has nothing but the creation of this diagram,
the requests that name it and the frames, whatever id it gets there. Once the diagram is deleted it
is not found. A request that finds nothing changes no later answer. -/
theorem diagrams_are_isolated (environment : Environment) (idOf : Nat → String)
    (steps : List Step)
    (hDistinct : Set.InjOn idOf {k | k < ((start environment idOf).run steps).created}) :
    let server := start environment idOf
    (∀ k < (server.run steps).created,
      let id := idOf k
      let own := server.exchangesOn id steps
      ∀ (idOf' : Nat → String) (steps' : List Step),
        List.Forall₂ (Step.Transfers (idOf' 0)) (own.map Exchange.step) steps' →
        ((start environment idOf').exchanges steps').map Exchange.response =
          own.map fun e => e.response.map (Response.renamed id (idOf' 0))) ∧
    (∀ before r after id, steps = before ++ .request r :: after →
      accept environment r = .ok (.diagram id .delete) →
      ((server.run before).answer r).2.status = 200 →
      ∀ e ∈ ((server.run before).answer r).1.exchanges after, ∀ later call,
        e.step = .request later → accept environment later = .ok (.diagram id call) →
        e.response = some .diagramNotFound) ∧
    ∀ before r after, ((server.run before).answer r).2.status = 404 →
      ((server.run before).answer r).1.exchanges after = (server.run before).exchanges after := by
  intro server
  have hSound : server.Sound := sound_start environment idOf
  refine ⟨fun k hk idOf' steps' hSteps => ?_, ?_, fun before r after hStatus => ?_⟩
  · have hFollows : Follows k (idOf k) (idOf' 0) server (start environment idOf') :=
      ⟨rfl, rfl, rfl, rfl, fun _ => rfl, hSound, sound_start environment idOf'⟩
    exact hFollows.exchanges hSteps fun j hj hId => hDistinct hj hk hId
  · rintro before r after id rfl hAccept hStatus
    have hEnvironment : (server.run before).environment = environment :=
      (hSound.succeeds_run before).environment
    have hIds : (server.run before).idOf = idOf := (hSound.succeeds_run before).idOf
    rw [run_append] at hDistinct
    intro e hIn later call hLater hCall
    exact (hSound.run before).exchanges_of_delete (by rwa [hEnvironment]) hStatus
      (by rwa [hIds]) e hIn later call hLater (by rwa [hEnvironment])
  · rw [(hSound.run before).answer_of_notFound hStatus]

theorem diagrams_are_isolated_of_two :
    let ask (method path : String) : Step := .request ⟨method, path, [], .document (.object [])⟩
    let ids (k : Nat) : String := String.ofList (List.replicate (k + 1) 'a')
    let steps := [ask "POST" "/api/diagrams", ask "POST" "/api/diagrams",
      ask "GET" "/api/diagrams/aa", .frame, ask "POST" "/api/diagrams/aa/viewport",
      ask "DELETE" "/api/diagrams/a", ask "GET" "/api/diagrams/a"]
    let kept := [ask "POST" "/api/diagrams", .frame, ask "DELETE" "/api/diagrams/b",
      ask "GET" "/api/diagrams/b"]
    let server := start ⟨none, none⟩ ids
    Set.InjOn ids {k | k < (server.run steps).created} ∧ (server.run steps).created = 2 ∧
      List.Forall₂ (Step.Transfers "b") ((server.exchangesOn "a" steps).map Exchange.step) kept ∧
      ((start ⟨none, none⟩ fun _ => "b").exchanges kept).map Exchange.response =
        (server.exchangesOn "a" steps).map fun e => e.response.map (Response.renamed "a" "b") := by
  intro ask ids steps kept server
  have hCreated : (server.run steps).created = 2 := by decide +revert
  have hDistinct : Set.InjOn ids {k | k < (server.run steps).created} := by
    intro i _ j _ hSame
    have hLength := congrArg List.length (String.ofList_injective hSame)
    simpa using hLength
  have hOwn : (server.exchangesOn "a" steps).map Exchange.step =
      [ask "POST" "/api/diagrams", .frame, ask "DELETE" "/api/diagrams/a",
        ask "GET" "/api/diagrams/a"] := rfl
  have hKept : List.Forall₂ (Step.Transfers "b")
      ((server.exchangesOn "a" steps).map Exchange.step) kept := by
    rw [hOwn]
    exact .cons (.request ⟨rfl, rfl, rfl, rfl⟩) (.cons .frame
      (.cons (.request ⟨rfl, rfl, rfl, rfl⟩) (.cons (.request ⟨rfl, rfl, rfl, rfl⟩) .nil)))
  have hId : ids 0 = "a" := rfl
  have hFirst : 0 < (server.run steps).created := hCreated ▸ Nat.two_pos
  have hIsolated := (diagrams_are_isolated ⟨none, none⟩ ids steps hDistinct).1 0 hFirst
  rw [hId] at hIsolated
  exact ⟨hDistinct, hCreated, hKept, hIsolated (fun _ => "b") kept hKept⟩

end Server

end TypeDiagram
