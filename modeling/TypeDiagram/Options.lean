import TypeDiagram.Document.Quoted
import TypeDiagram.Text.Cut

/-!
Options of a diagram: how it is shown, and how its layout is spaced. Options that the caller leaves
open come from the environment.
-/

namespace TypeDiagram

inductive Direction where
  | horizontal
  | vertical
deriving DecidableEq, Repr

namespace Direction

def name : Direction → String
  | horizontal => "horizontal"
  | vertical => "vertical"

def ofName? (s : String) : Option Direction :=
  [horizontal, vertical].find? fun d => d.name == s

def flipped : Direction → Direction
  | horizontal => vertical
  | vertical => horizontal

def handleSide : Direction → String
  | horizontal => "EAST"
  | vertical => "SOUTH"

/-- How much room a fitted view leaves around the diagram. -/
def fitPadding : Direction → Float
  | horizontal => 0.15
  | vertical => 0.5

end Direction

inductive Theme where
  | light
  | dark
deriving DecidableEq, Repr

namespace Theme

def name : Theme → String
  | light => "light"
  | dark => "dark"

def ofName? (s : String) : Option Theme :=
  [light, dark].find? fun t => t.name == s

end Theme

def Direction.named (d : Document Amount) : Except UnknownName Direction :=
  d.named "Direction" Direction.ofName?

structure Environment where
  direction : Option String
  theme : Option String
deriving DecidableEq, Repr

/-- The direction that the environment names, in any case and with blanks around it. -/
def Environment.direction? (e : Environment) : Option Direction :=
  e.direction.bind fun s => Direction.ofName? (Text.trim s).toLower

structure ViewOptions where
  direction : Direction
  autoFitView : Bool
  theme : Theme
  enableMinimap : Bool
deriving DecidableEq, Repr

/-- View options; what is left open, the environment says. A theme without a name is left open, and
an unknown one is the light one. -/
def Environment.viewOptions (e : Environment) (direction : Option Direction) (autoFitView : Bool)
    (theme : String) (enableMinimap : Bool) : ViewOptions :=
  let theme := if theme.isEmpty then e.theme.getD Theme.light.name else theme
  ⟨direction.getD (e.direction?.getD .horizontal), autoFitView, (Theme.ofName? theme).getD .light,
    enableMinimap⟩

structure ViewSettings where
  direction : Option String
  autoFitView : Bool
  theme : String
  enableMinimap : Bool
deriving DecidableEq, Repr

/-- Completes the settings from the environment. An unknown direction is an error. -/
def ViewSettings.complete (env : Environment) (s : ViewSettings) :
    Except UnknownName ViewOptions := do
  let direction ← s.direction.mapM fun name => Direction.named (.string name)
  return env.viewOptions direction s.autoFitView s.theme s.enableMinimap

/-- The value of an option: a text as a rule, and no whole number that is too large for binary64. -/
structure Setting where
  value : Document Amount
  inRange : ∀ n, value = .number (.whole n) → Amount.isTooLarge n = false

structure LayoutOptions where
  nodeNodeBetweenLayers : Float
  edgeNodeBetweenLayers : Float
  nodeNode : Float
  componentComponent : Float
  /-- Seconds between two frames. -/
  frameInterval : Float
  /-- Options that are added to those of the layout, or replace them. -/
  extra : List (String × Setting)

namespace LayoutOptions

/-- Sixty frames a second and the usual spacings. -/
def standard : LayoutOptions := ⟨30, 30, 50, 50, 1 / 60, []⟩

/-- Sets a key: in place if it is there, else at the end. -/
def setOption {β : Type} (options : List (String × β)) (key : String) (value : β) :
    List (String × β) :=
  if options.any fun o => o.1 == key then
    options.map fun o => if o.1 == key then (key, value) else o
  else options ++ [(key, value)]

def ownSettings (o : LayoutOptions) (direction : Direction) : List (String × String) := [
  ("elk.algorithm", "layered"),
  ("elk.direction", match direction with
    | .horizontal => "RIGHT"
    | .vertical => "DOWN"),
  ("elk.edgeRouting", "ORTHOGONAL"),
  ("elk.insideSelfLoops.activate", "false"),
  ("elk.interactiveLayout", "true"),
  ("elk.layered.crossingMinimization.semiInteractive", "true"),
  ("elk.layered.cycleBreaking.strategy", "INTERACTIVE"),
  ("elk.layered.layering.strategy", "INTERACTIVE"),
  ("elk.layered.nodePlacement.strategy", "INTERACTIVE"),
  ("elk.layered.spacing.edgeNodeBetweenLayers", Number.general o.edgeNodeBetweenLayers),
  ("elk.layered.spacing.nodeNodeBetweenLayers", Number.general o.nodeNodeBetweenLayers),
  ("elk.spacing.nodeNode", Number.general o.nodeNode),
  ("elk.spacing.componentComponent", Number.general o.componentComponent),
  ("elk.separateConnectedComponents", "false")]

def settings (o : LayoutOptions) (direction : Direction) : List (String × Document Amount) :=
  o.extra.foldl (fun options (key, setting) => setOption options key setting.value)
    ((o.ownSettings direction).map fun (key, value) => (key, .string value))

end LayoutOptions

end TypeDiagram
