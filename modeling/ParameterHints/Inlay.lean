import ParameterHints.Denylist.Merged
import ParameterHints.Text.LineMap

/-! # Inlay hints of a file

The calls of a tree that touch a requested range are asked for their parameter hints, and those of
methods that are not denied are placed by line and column, in reading order. A call that is denied
still lets the calls inside it show theirs.
-/

namespace ParameterHints

structure InlayHint where
  /-- The start of the argument that it labels. -/
  position : Position
  label : String
  /-- The full name of the called method, when it is known. -/
  tooltip : Option String
  deriving DecidableEq

namespace InlayHint

def ofParameter (position : Position) (name : String) : InlayHint := ⟨position, name ++ ": ", none⟩

def withTooltip (h : InlayHint) (tooltip : String) : InlayHint := { h with tooltip := some tooltip }

end InlayHint

/-- An open file: a tree over a text, and what is asked about its calls. -/
structure Document where
  arena : Arena
  lines : LineMap
  provider : HintProvider
  denylist : Denylist
  config : Config

namespace Document

def inlay (d : Document) (info : Option MethodInfo) (h : ParameterHint) : InlayHint :=
  let hint := InlayHint.ofParameter (d.lines.position h.offset) h.text
  match info with
  | some i => hint.withTooltip i.fullName
  | none => hint

/-- The hints of one call that lie between two offsets, both included. -/
def callHints (d : Document) (start stop : Nat) (call : NodeRef) : List InlayHint :=
  let info := d.provider.methodInfo? d.arena call
  if info.any d.denylist.denies then []
  else
    ((d.provider.hints d.arena call).filter fun h => start ≤ h.offset && h.offset ≤ stop).map
      (d.inlay info)

def isCall (d : Document) (r : NodeRef) : Bool := (d.arena.node? r).any (·.kind == .call)

/-- The hints of the calls below a place, parents first. Nodes that do not touch the offsets are
    left out with all that is below them. -/
def collect (d : Document) (root : NodeRef) (start stop : Nat) : List InlayHint :=
  let touches := fun n : Node => start ≤ n.stop && n.start ≤ stop
  ((d.arena.walk touches root).filter d.isCall).flatMap (d.callHints start stop)

/-- The hints below a place that lie in a range, in reading order. Hints at one position stay in
    the order in which they were collected. -/
def hints (d : Document) (root : NodeRef) (range : PositionRange) : List InlayHint :=
  if d.config.parameterHints then
    let (start, stop) := d.lines.offsets range
    (d.collect root start stop).mergeSort fun a b => a.position.notAfter b.position
  else []

end Document

end ParameterHints
