import TypeDiagram.Server.Body
import TypeDiagram.Session.Report
import TypeDiagram.Text.Cut
import TypeDiagram.Text.Utf8

/-!
The web interface to open diagrams. A request is answered in this order: a path that no route has is
not found, a route is refused for another method, a request that does not fit its route is invalid,
and only then is the diagram looked up. A path that has slashes too many at its end is referred to
its route. Each diagram is a session of its own. The target of a request as it is sent is a path,
and a query of named values between `&`, in which `%` and two hexadecimal digits stand for a byte,
and `+` stands for a blank.
-/

namespace TypeDiagram.Server

/-- An answer; that to an invalid request has no body of its own. -/
structure Response where
  status : Nat
  body : Option (Document Float)

namespace Response

def ok (members : List (String × Document Float)) : Response := ⟨200, some (.object members)⟩

def problem (status : Nat) (detail : String) : Response :=
  ⟨status, some (.object [("detail", .string detail)])⟩

def notFound : Response := problem 404 "Not Found"

def methodNotAllowed : Response := problem 405 "Method Not Allowed"

def invalid : Response := ⟨422, none⟩

def unreadable : Response := problem 400 "There was an error parsing the body"

def redirected : Response := ⟨307, some .null⟩

def diagramNotFound : Response := problem 404 "Diagram not found"

def nodeNotFound : Response := problem 404 "Node not found"

end Response

structure Request where
  method : String
  path : String
  query : List (String × String)
  body : Body

def percentBytes : List Char → List UInt8
  | '%' :: a :: b :: cs =>
    match Document.hexDigit? a, Document.hexDigit? b with
    | some high, some low => UInt8.ofNat (16 * high + low) :: percentBytes cs
    | _, _ => '%'.toUInt8 :: percentBytes (a :: b :: cs)
  | c :: cs => (String.ofList [c]).toUTF8.toList ++ percentBytes cs
  | [] => []

/-- The text that a text stands for; bytes that are no text stay as they were sent. -/
def percentDecode (cs : List Char) : List Char :=
  (Text.Utf8.decode (percentBytes cs)).toOption.getD cs

/-- What is not ASCII in a query is sent by its bytes, and each byte is taken for a character. -/
def asBytes (cs : List Char) : List Char :=
  cs.flatMap fun c => (String.ofList [c]).toUTF8.toList.map fun b => Char.ofNat b.toNat

def queryText (cs : List Char) : String :=
  String.ofList (percentDecode (asBytes cs |>.map fun c => if c == '+' then ' ' else c))

/-- The names and values of a query; a value that is left out is empty. -/
def queryPairs (query : String) : List (String × String) :=
  ((query.splitOn "&").filter fun part => !part.isEmpty).map fun part =>
    (queryText (Text.before '=' part.toList), queryText ((Text.after? '=' part.toList).getD []))

def Request.to (method path query : String) (body : Body) : Request :=
  ⟨method, path, queryPairs query, body⟩

inductive DiagramCall where
  | show
  | delete
  | setSource (source : String)
  | measure (node : String) (size : Size Float)
  | move (node : String) (position : Position Float)
  | noticeViewport
  | setOptions (direction : Option Direction) (autoFitView : Option Bool) (theme : Option Theme)
      (enableMinimap : Option Bool)
  | layout
  | events (limit : Int)
deriving Repr

inductive Call where
  | create (source : String) (options : ViewOptions)
  | diagram (id : String) (call : DiagramCall)
deriving Repr

inductive Route where
  | collection
  | diagram (id : String)
  | source (id : String)
  | measure (id node : String)
  | move (id node : String)
  | viewport (id : String)
  | options (id : String)
  | layout (id : String)
  | events (id : String)
deriving DecidableEq, Repr

namespace Route

def ofParts? : List String → Option Route
  | "" :: "api" :: "diagrams" :: rest =>
    if rest.any String.isEmpty then none
    else match rest with
      | [] => some collection
      | [id] => some (diagram id)
      | [id, "source"] => some (source id)
      | [id, "nodes", node, "measure"] => some (measure id node)
      | [id, "nodes", node, "move"] => some (move id node)
      | [id, "viewport"] => some (viewport id)
      | [id, "options"] => some (options id)
      | [id, "layout"] => some (layout id)
      | [id, "events"] => some (events id)
      | _ => none
  | _ => none

def ofPath? (path : String) : Option Route :=
  ofParts? ((path.toList.splitOn '/').map String.ofList)

def isBehindSlashes (path : String) : Bool :=
  let bare := (path.toList.reverse.dropWhile (· == '/')).reverse
  bare.length < path.length && (ofPath? (String.ofList bare)).isSome

def methods : Route → List String
  | collection => ["POST"]
  | diagram _ => ["GET", "DELETE"]
  | source _ => ["PUT"]
  | options _ => ["PATCH"]
  | events _ => ["GET"]
  | measure .. | move .. | viewport _ | layout _ => ["POST"]

/-- Is the body of a request looked at? -/
def takesBody : Route → Bool
  | collection | source _ | measure .. | move .. | options _ => true
  | diagram _ | viewport _ | layout _ | events _ => false

end Route

def standardLimit : Int := 100

def readCreate? (env : Environment) (members : List (String × Document Amount)) : Option Call := do
  let source ← optionalOr .text "" members "source"
  let direction ← optionalOr (.nullable (.named Direction.ofName?)) none members "direction"
  let autoFitView ← optionalOr .flag true members "auto_fit_view"
  let theme ← optionalOr (.nullable (.named Theme.ofName?)) none members "theme"
  let enableMinimap ← optionalOr .flag true members "enable_minimap"
  some (.create source
    (env.viewOptions direction autoFitView ((theme.map Theme.name).getD "") enableMinimap))

/-- The changes of options that a body asks for; what it leaves out stays. -/
def readOptions? (members : List (String × Document Amount)) : Option DiagramCall := do
  let direction ← optionalOr (.nullable (.named Direction.ofName?)) none members "direction"
  let autoFitView ← optionalOr (.nullable .flag) none members "auto_fit_view"
  let theme ← optionalOr (.nullable (.named Theme.ofName?)) none members "theme"
  let enableMinimap ← optionalOr (.nullable .flag) none members "enable_minimap"
  some (.setOptions direction autoFitView theme enableMinimap)

/-- The number of events that a query asks for; of several the last counts. -/
def readLimit? (query : List (String × String)) : Option Int :=
  match query.reverse.lookup "limit" with
  | some s => readWhole? s
  | none => some standardLimit

def readCall? (env : Environment) (route : Route) (r : Request) : Option Call := do
  let pair (first second : String) : Option (Float × Float) := do
    let members ← r.body.members?
    some (← required .number members first, ← required .number members second)
  match route with
  | .collection => readCreate? env (← r.body.members?)
  | .diagram id => some (.diagram id (if r.method == "DELETE" then .delete else .show))
  | .source id => some (.diagram id (.setSource (← required .text (← r.body.members?) "source")))
  | .measure id node =>
    let (width, height) ← pair "width" "height"
    some (.diagram id (.measure node ⟨width, height⟩))
  | .move id node =>
    let (x, y) ← pair "x" "y"
    some (.diagram id (.move node ⟨x, y⟩))
  | .viewport id => some (.diagram id .noticeViewport)
  | .options id => some (.diagram id (← readOptions? (← r.body.members?)))
  | .layout id => some (.diagram id .layout)
  | .events id => some (.diagram id (.events (← readLimit? r.query)))

end Server

structure Server where
  environment : Environment
  /-- The id of the diagram that is created as the given one; ids are distinct. -/
  idOf : Nat → String
  /-- The number of diagrams that were created. -/
  created : Nat
  diagrams : OrderedMap String (Session Float)

namespace Server

def start (environment : Environment) (idOf : Nat → String) : Server :=
  ⟨environment, idOf, 0, .empty⟩

def snapshot (id : String) (s : Session Float) : List (String × Document Float) :=
  ("id", .string id) :: s.viewMembers

def chooseDirection (s : Session Float) : Option Direction → Session Float
  | some d => if d = s.options.direction then s else s.toggleDirection
  | none => s

def chooseAutoFit (s : Session Float) : Option Bool → Session Float
  | some b => if b = s.options.autoFitView then s else s.toggleAutoFit
  | none => s

/-- Changes the options of a diagram one after the other, so the wish about automatic fitting counts
more than what another direction does to it. -/
def changeOptions (s : Session Float) (direction : Option Direction) (autoFitView : Option Bool)
    (theme : Option Theme) (enableMinimap : Option Bool) : Session Float :=
  let s := chooseAutoFit (chooseDirection s direction) autoFitView
  { s with options := { s.options with
      theme := theme.getD s.options.theme
      enableMinimap := enableMinimap.getD s.options.enableMinimap } }

/-- Answers a call on a diagram that is open: the diagram behind it, unless it is deleted, and the
response. A layout that was asked for has settled before. -/
def answerDiagram (id : String) (s : Session Float) :
    DiagramCall → Option (Session Float) × Response
  | .show | .layout => (some s, .ok (snapshot id s))
  | .delete => (none, .ok [("deleted", .string id)])
  | .setSource source =>
    let s := s.setSource source
    (some s, .ok (("models", .array (s.models.map Model.toDocument)) :: snapshot id s))
  | .measure node size =>
    let (s, found) := s.measure node size
    (some s, if found then .ok (snapshot id s) else .nodeNotFound)
  | .move node position =>
    let (s, found) := s.move node position
    (some s, if found then .ok (snapshot id s) else .nodeNotFound)
  | .noticeViewport =>
    let s := s.noticeViewport
    (some s, .ok [("auto_fit_view", .bool s.options.autoFitView)])
  | .setOptions direction autoFitView theme enableMinimap =>
    let s := changeOptions s direction autoFitView theme enableMinimap
    (some s, .ok (snapshot id s))
  | .events limit =>
    let events := (s.history.recent limit).map Session.eventDocument
    (some s, .ok [("id", .string id), ("events", .array events)])

def put (server : Server) (id : String) (s : Session Float) : Server :=
  { server with diagrams := server.diagrams.insert id s }

def drop (server : Server) (id : String) : Server :=
  { server with diagrams := server.diagrams.erase id }

/-- One frame interval passes for all diagrams, and what they start settles at once. -/
def frame (server : Server) : Server :=
  { server with diagrams := server.diagrams.mapValues fun _ s =>
      s.frameSettled Diagram.layeredService }

/-- Starts a pass of a diagram at once, in place of the one that its pending frame would start. -/
def layoutNow (server : Server) (id : String) : Server :=
  match server.diagrams.get? id with
  | none => server
  | some s => server.put id s.layoutNow

/-- Waits until a diagram is idle, at most `fuel` times. Its passes settle at once, but when a frame
of it is pending, time passes for all diagrams. -/
def awaitIdle (id : String) : (fuel : Nat) → Server → Server
  | 0, server => server
  | fuel + 1, server =>
    match server.diagrams.get? id with
    | none => server
    | some s =>
      if !s.inFlight.isEmpty then
        awaitIdle id fuel (server.put id (s.settleAll Diagram.layeredService))
      else if s.scheduler.pending then awaitIdle id fuel server.frame
      else server

/-- What is waited for before a call on a diagram is answered. -/
def prepare (server : Server) (id : String) : DiagramCall → Server
  | .layout => (server.layoutNow id).awaitIdle id Session.idleLimit
  | _ => server

def answerFor (server : Server) (id : String) (call : DiagramCall) : Server × Response :=
  match server.diagrams.get? id with
  | none => (server, .diagramNotFound)
  | some s =>
    match answerDiagram id s call with
    | (some s, response) => (server.put id s, response)
    | (none, response) => (server.drop id, response)

def answerCall (server : Server) : Call → Server × Response
  | .create source options =>
    let id := server.idOf server.created
    let s := (Session.create options .standard).setSource source
    ({ server.put id s with created := server.created + 1 }, .ok (snapshot id s))
  | .diagram id call => (server.prepare id call).answerFor id call

/-- The call that a request makes, or the answer that refuses the request whatever is open. -/
def accept (env : Environment) (r : Request) : Except Response Call :=
  match Route.ofPath? r.path with
  | none => .error (if Route.isBehindSlashes r.path then .redirected else .notFound)
  | some route =>
    if !route.methods.contains r.method then .error .methodNotAllowed
    else if route.takesBody && r.body.isExcessive then .error .unreadable
    else match readCall? env route r with
      | none => .error .invalid
      | some call => .ok call

def answer (server : Server) (r : Request) : Server × Response :=
  match accept server.environment r with
  | .error response => (server, response)
  | .ok call => server.answerCall call

end Server

end TypeDiagram
