/-!
Coalescing of requests into frames. Callbacks that are requested before the next frame run in it
once each, in the order of their first requests. The frame is due one interval after the request
that made it pending, as exactly as the clock tells times apart. A callback may itself request
callbacks, which run in a later frame, or cancel the frame that is pending then. A callback that
fails takes the rest of its frame with it.
-/

namespace TypeDiagram.Session

inductive FrameAction (κ : Type) where
  | request (callback : κ)
  | cancel
deriving DecidableEq, Repr

/-- What a callback does when it runs: its actions in order, and whether it fails in the end. -/
structure FrameReaction (κ : Type) where
  actions : List (FrameAction κ)
  fails : Bool
deriving DecidableEq, Repr

structure FrameScheduler (τ κ : Type) where
  interval : τ
  /-- Times that are less than this apart are the same to the clock. -/
  resolution : τ
  clock : τ
  /-- The callbacks of the next frame, in the order of their first requests. -/
  queue : List κ
  /-- When the next frame is due, if one is pending. -/
  due : Option τ
deriving DecidableEq, Repr

namespace FrameScheduler

variable {τ κ : Type} [Add τ] [LT τ] [DecidableLT τ] [DecidableEq κ]

def start (interval resolution clock : τ) : FrameScheduler τ κ :=
  ⟨interval, resolution, clock, [], none⟩

def pending (s : FrameScheduler τ κ) : Bool := s.due.isSome

def request (s : FrameScheduler τ κ) (callback : κ) : FrameScheduler τ κ :=
  { s with
    queue := if s.queue.contains callback then s.queue else s.queue ++ [callback]
    due := some (s.due.getD (s.clock + s.interval)) }

def cancel (s : FrameScheduler τ κ) : FrameScheduler τ κ :=
  { s with queue := [], due := none }

def act (s : FrameScheduler τ κ) : FrameAction κ → FrameScheduler τ κ
  | .request callback => s.request callback
  | .cancel => s.cancel

/-- Runs callbacks in order up to the first that fails; those that ran. -/
def runAll (react : κ → FrameReaction κ) (s : FrameScheduler τ κ) :
    List κ → FrameScheduler τ κ × List κ
  | [] => (s, [])
  | k :: ks =>
    let s := (react k).actions.foldl act s
    if (react k).fails then (s, [k])
    else
      let (s, ran) := runAll react s ks
      (s, k :: ran)

def tick (react : κ → FrameReaction κ) (s : FrameScheduler τ κ) : FrameScheduler τ κ × List κ :=
  runAll react { s with queue := [], due := none } s.queue

def runDue (react : κ → FrameReaction κ) :
    (fuel : Nat) → FrameScheduler τ κ → FrameScheduler τ κ × List κ
  | 0, s => (s, [])
  | fuel + 1, s =>
    match s.due with
    | some time =>
      if time < s.clock + s.resolution then
        let (s, ran) := s.tick react
        let (s, more) := runDue react fuel s
        (s, ran ++ more)
      else (s, [])
    | none => (s, [])

/-- How many frames may run at one time. Only with an interval below the resolution is more than one
due. -/
def frameLimit : Nat := 1000

def advance (react : κ → FrameReaction κ) (s : FrameScheduler τ κ) (time : τ) :
    FrameScheduler τ κ × List κ :=
  runDue react frameLimit { s with clock := s.clock + time }

end FrameScheduler

inductive FrameMove (τ κ : Type) where
  | request (callback : κ)
  | cancel
  /-- Time passes. -/
  | wait (time : τ)
  /-- The frame that is pending runs if it is due. -/
  | frame (react : κ → FrameReaction κ)

namespace FrameScheduler

variable {τ κ : Type} [Add τ] [LT τ] [DecidableLT τ] [DecidableEq κ]

def isDue (s : FrameScheduler τ κ) : Bool := s.due.any fun time => time < s.clock + s.resolution

def move (s : FrameScheduler τ κ) : FrameMove τ κ → FrameScheduler τ κ × List κ
  | .request callback => (s.request callback, [])
  | .cancel => (s.cancel, [])
  | .wait time => ({ s with clock := s.clock + time }, [])
  | .frame react => if s.isDue then s.tick react else (s, [])

def run (s : FrameScheduler τ κ) : List (FrameMove τ κ) → FrameScheduler τ κ × List κ
  | [] => (s, [])
  | m :: ms =>
    let (s, ran) := s.move m
    let (s, more) := s.run ms
    (s, ran ++ more)

end FrameScheduler

end TypeDiagram.Session
