import TypeDiagram.Document.Quoted

/-!
Events of a diagram and the bus that delivers them. The history keeps the latest events up to its
capacity. An event is delivered to the callbacks that were subscribed to its kind when it was
published, once for each subscription; what they do to the subscriptions meanwhile counts from the
next event on, and a callback that fails does not keep the others from their calls.
-/

namespace TypeDiagram.Session

inductive EventKind where
  | stateCommitted
  | connectionsInvalidated
  | fitView
  | layoutApplied
  | layoutPostponed
deriving DecidableEq, Repr

namespace EventKind

def all : List EventKind :=
  [stateCommitted, connectionsInvalidated, fitView, layoutApplied, layoutPostponed]

def name : EventKind → String
  | stateCommitted => "state_committed"
  | connectionsInvalidated => "connections_invalidated"
  | fitView => "fit_view"
  | layoutApplied => "layout_applied"
  | layoutPostponed => "layout_postponed"

def ofName? (s : String) : Option EventKind := all.find? fun k => k.name == s

def named (d : Document Amount) : Except UnknownName EventKind :=
  d.named "DiagramEventType" ofName?

end EventKind

/-- An event; `δ` is the type of what it tells besides. -/
structure Event (δ : Type) where
  kind : EventKind
  nodeId : Option String
  data : δ
deriving DecidableEq, Repr

structure History (δ : Type) where
  /-- How many events are kept; all of them if there is no bound. -/
  capacity : Option Nat
  events : List (Event δ)
deriving DecidableEq, Repr

namespace History

variable {δ : Type}

def standardCapacity : Nat := 500

def empty (capacity : Option Nat) : History δ := ⟨capacity, []⟩

def lastOf {β : Type} (n : Nat) (xs : List β) : List β := xs.drop (xs.length - n)

def push (h : History δ) (e : Event δ) : History δ :=
  let events := h.events ++ [e]
  { h with events := h.capacity.elim events fun n => lastOf n events }

def size (h : History δ) : Nat := h.events.length

/-- The latest events: the last `limit` of them for a positive limit; all but the first `-limit`
otherwise, hence all of them for the limit zero. -/
def recent (h : History δ) (limit : Int) : List (Event δ) :=
  if 0 < limit then lastOf limit.toNat h.events else h.events.drop (-limit).toNat

def ofKind (h : History δ) (kind : EventKind) : List (Event δ) :=
  h.events.filter fun e => e.kind == kind

end History

inductive BusAction (ι : Type) where
  | subscribe (kind : EventKind) (callback : ι)
  | unsubscribe (kind : EventKind) (callback : ι)
deriving DecidableEq, Repr

/-- What a callback does when it is called: its actions in order, and whether it fails at
the end. -/
structure BusReaction (ι : Type) where
  actions : List (BusAction ι)
  fails : Bool
deriving DecidableEq, Repr

structure EventBus (ι δ : Type) where
  /-- The subscriptions of all kinds, oldest first. -/
  subscriptions : List (EventKind × ι)
  history : History δ
deriving DecidableEq, Repr

structure CallbackFailure (ι : Type) where
  callback : ι
deriving DecidableEq, Repr

/-- A bus that delivers an event, and the callbacks called so far, in the order of the calls. -/
structure Delivery (ι δ : Type) where
  bus : EventBus ι δ
  called : List ι
deriving DecidableEq, Repr

/-- What is done in a delivery. A failure that nothing catches ends it. -/
abbrev Delivering (ι δ : Type) := ExceptT (CallbackFailure ι) (StateM (Delivery ι δ))

namespace EventBus

variable {ι δ : Type} [DecidableEq ι]

structure NegativeCapacity where
deriving DecidableEq, Repr

def NegativeCapacity.message (_ : NegativeCapacity) : String := "maxlen must be non-negative"

def empty (capacity : Option Nat) : EventBus ι δ := ⟨[], .empty capacity⟩

def create (capacity : Option Int) : Except NegativeCapacity (EventBus ι δ) :=
  match capacity with
  | none => .ok (empty none)
  | some n => if n < 0 then .error {} else .ok (empty (some n.toNat))

def subscribers (b : EventBus ι δ) (kind : EventKind) : List ι :=
  (b.subscriptions.filter fun s => s.1 == kind).map (·.2)

def subscribe (b : EventBus ι δ) (kind : EventKind) (callback : ι) : EventBus ι δ :=
  { b with subscriptions := b.subscriptions ++ [(kind, callback)] }

def unsubscribe (b : EventBus ι δ) (kind : EventKind) (callback : ι) : EventBus ι δ :=
  { b with subscriptions := b.subscriptions.filter fun s => s != (kind, callback) }

def act (b : EventBus ι δ) : BusAction ι → EventBus ι δ
  | .subscribe kind callback => b.subscribe kind callback
  | .unsubscribe kind callback => b.unsubscribe kind callback

def call (reaction : BusReaction ι) (callback : ι) : Delivering ι δ Unit := do
  modify fun d => ⟨reaction.actions.foldl act d.bus, d.called ++ [callback]⟩
  if reaction.fails then throw ⟨callback⟩

/-- Calls callbacks in order, also those behind one that fails. How a callback reacts may depend on
how many were called before it. -/
def callAll (react : Nat → ι → BusReaction ι) : List ι → Delivering ι δ Unit
  | [] => pure ()
  | callback :: callbacks => do
    let before := (← get).called.length
    tryCatch (call (react before callback) callback) fun _ => pure ()
    callAll react callbacks

/-- Records an event and calls the callbacks that are subscribed to its kind by then. -/
def announce (react : Nat → ι → BusReaction ι) (e : Event δ) : Delivering ι δ Unit := do
  let callbacks := (← get).bus.subscribers e.kind
  modify fun d => { d with bus := { d.bus with history := d.bus.history.push e } }
  callAll react callbacks

/-- Delivers an event: whether a failure has got through, and the bus and the calls in the end. -/
def deliver (react : Nat → ι → BusReaction ι) (b : EventBus ι δ) (e : Event δ) :
    Except (CallbackFailure ι) Unit × Delivery ι δ :=
  (announce react e).run.run ⟨b, []⟩

def publish (react : ι → Event δ → BusReaction ι) (b : EventBus ι δ) (e : Event δ) :
    EventBus ι δ × List ι :=
  let d := (deliver (fun _ callback => react callback e) b e).2
  (d.bus, d.called)

end EventBus

inductive BusStep (ι δ : Type) where
  | act (a : BusAction ι)
  | publish (react : Nat → ι → BusReaction ι) (e : Event δ)

namespace EventBus

variable {ι δ : Type} [DecidableEq ι]

def step (b : EventBus ι δ) : BusStep ι δ → EventBus ι δ
  | .act a => b.act a
  | .publish react e => (deliver react b e).2.bus

def run (b : EventBus ι δ) (steps : List (BusStep ι δ)) : EventBus ι δ := steps.foldl step b

theorem run_concat (b : EventBus ι δ) (steps : List (BusStep ι δ)) (s : BusStep ι δ) :
    b.run (steps ++ [s]) = (b.run steps).step s := by
  rw [run, List.foldl_append]
  rfl

end EventBus

end TypeDiagram.Session
