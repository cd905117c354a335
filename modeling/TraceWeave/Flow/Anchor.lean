import TraceWeave.Flow.Graph
import TraceWeave.Flow.LineIndex
/-!
# Anchors of source lines

A requested line is attached to an instruction, its anchor: the first instruction that carries the
line; if there is none, the first reachable instruction with a later line; and if there is none
either, the last reachable instruction with an earlier line.
-/

namespace TraceWeave

namespace FlowGraph

/-- The anchor of a line, with reachability as a parameter. -/
def anchorBy? (g : FlowGraph) (index : LineIndex) (isReachable : Label → Bool) (line : UInt32) :
    Option Label :=
  match index.firstAt? line with
  | some exact => some exact
  | none =>
    let later := g.nodes.find? fun node => node.2.any (line < ·) && isReachable node.1
    let earlier := g.nodes.reverse.find? fun node => node.2.any (· < line) && isReachable node.1
    (later.or earlier).map (·.1)

/-- The anchor of a line, with a search of its own for every candidate. -/
def anchor? (g : FlowGraph) (index : LineIndex) (line : UInt32) : Option Label :=
  g.anchorBy? index g.reaches line

end FlowGraph

/-- Finds anchors in one body; what is reachable is computed once. -/
structure AnchorFinder where
  /-- The control flow of the body. -/
  graph : FlowGraph
  /-- The source lines of the body. -/
  index : LineIndex
  /-- What the entries of the graph lead to. -/
  reachable : List Label := graph.reachable

namespace AnchorFinder

/-- The finder of a body. -/
def ofBody (b : Body) : AnchorFinder := { graph := .ofBody b, index := .ofBody b }

/-- The anchor of a line. -/
def find? (finder : AnchorFinder) (line : UInt32) : Option Label :=
  finder.graph.anchorBy? finder.index finder.reachable.contains line

end AnchorFinder

end TraceWeave
