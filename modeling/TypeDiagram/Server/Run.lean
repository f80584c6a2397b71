import TypeDiagram.Server.Api

/-!
Runs of a server: the requests to it and the frame intervals that pass, in the order in which they
happen. Each of them is an exchange, which has an answer if it was a request.
-/

namespace TypeDiagram

namespace Server

def Route.id? : Route → Option String
  | collection => none
  | diagram id | source id | measure id _ | move id _ | viewport id | options id | layout id
  | events id => some id

def Call.id? : Call → Option String
  | create .. => none
  | diagram id _ => some id

/-- The id of the diagram that a request is about: the one that it creates, or the one that it
names. -/
def addressee? (server : Server) (r : Request) : Option String :=
  match accept server.environment r with
  | .ok (.create ..) => some (server.idOf server.created)
  | _ => (Route.ofPath? r.path).bind Route.id?

inductive Step where
  | request (r : Request)
  /-- One frame interval passes. -/
  | frame

structure Exchange where
  step : Step
  addressee : Option String
  response : Option Response

/-- Is the exchange about the diagram with the given id? A frame is about every diagram. -/
def Exchange.concerns (id : String) (e : Exchange) : Bool :=
  match e.step with
  | .request _ => e.addressee == some id
  | .frame => true

def step (server : Server) : Step → Server
  | .request r => (server.answer r).1
  | .frame => server.frame

def exchange (server : Server) : Step → Exchange
  | .request r => ⟨.request r, server.addressee? r, some (server.answer r).2⟩
  | .frame => ⟨.frame, none, none⟩

def run (server : Server) (steps : List Step) : Server := steps.foldl step server

def exchanges : Server → List Step → List Exchange
  | _, [] => []
  | server, s :: steps => server.exchange s :: exchanges (server.step s) steps

def exchangesOn (server : Server) (id : String) (steps : List Step) : List Exchange :=
  (server.exchanges steps).filter (·.concerns id)

end Server

end TypeDiagram
