import TraceWeave.Body.Basic
/-!
# Control-flow graphs

The graph of a body has an edge from each instruction to every instruction that may run next: the
target of its jump, and the instruction after it unless it is a terminator.  Graphs can also be put
together by hand.  Two breadth-first searches go through a graph.  `reachable` collects everything
that an entry leads to, and marks a label when it goes into the queue; `reaches` asks about one
label, marks a label when it comes out of the queue, and stops as soon as it knows.
-/

namespace TraceWeave

/-- A directed graph over labels, with some labels marked as entries. -/
structure FlowGraph where
  /-- The instructions in program order, with their source lines. -/
  nodes : List (Label × Option UInt32) := []
  /-- The edges, without repetition. -/
  edges : List (Label × Label) := []
  /-- The entries, without repetition. -/
  entries : List Label := []

namespace FlowGraph

instance : EmptyCollection FlowGraph := ⟨{}⟩

/-- Adds an instruction after the others. -/
def addNode (g : FlowGraph) (label : Label) (line : Option UInt32) : FlowGraph :=
  { g with nodes := g.nodes ++ [(label, line)] }

/-- Adds an edge, unless the graph has it. -/
def addEdge (g : FlowGraph) (edge : Label × Label) : FlowGraph :=
  if g.edges.contains edge then g else { g with edges := g.edges ++ [edge] }

/-- Marks an entry, unless it is marked. -/
def addEntry (g : FlowGraph) (label : Label) : FlowGraph :=
  if g.entries.contains label then g else { g with entries := g.entries ++ [label] }

/-- The ways on from each instruction of a sequence: its jump first, then the next instruction. -/
def waysOn : List Instr → List (Label × Label)
  | [] => []
  | i :: rest =>
    let jump := i.op.target?.toList.map fun target => (i.label, target)
    let next := if i.op.isTerminator then [] else rest.head?.toList.map fun j => (i.label, j.label)
    jump ++ next ++ waysOn rest

/-- The graph of a body; its entry is the first instruction. -/
def ofBody (b : Body) : FlowGraph :=
  let g : FlowGraph :=
    { nodes := b.instrs.map fun i => (i.label, i.sourceLine?)
      entries := b.instrs.head?.toList.map (·.label) }
  (waysOn b.instrs).foldl addEdge g

/-- The labels that edges lead to from a label, in the order in which they were added. -/
def successors (g : FlowGraph) (label : Label) : List Label :=
  (g.edges.filter fun e => e.1 == label).map (·.2)

/-- A search under way. -/
structure Search where
  /-- The labels that have been seen. -/
  seen : List Label := []
  /-- The labels among them whose edges have not been followed, first the one to come next. -/
  queue : List Label := []

/-- Marks a label as seen and puts it at the end of the queue, unless it has been seen. -/
def Search.mark (s : Search) (label : Label) : Search :=
  if s.seen.contains label then s else { seen := label :: s.seen, queue := s.queue ++ [label] }

/-- Takes labels from the queue and marks what their edges lead to, until the queue is empty or the
rounds are over. -/
def spread (g : FlowGraph) : Nat → Search → Search
  | 0, s => s
  | rounds + 1, s =>
    match s.queue with
    | [] => s
    | label :: rest =>
      g.spread rounds ((g.successors label).foldl Search.mark { s with queue := rest })

/-- The rounds that every search can do with: a label comes into the queue as an entry or as the
target of an edge, and each edge is followed once. -/
def rounds (g : FlowGraph) : Nat := g.entries.length + g.edges.length

/-- The labels that an entry leads to, entries included. -/
def reachable (g : FlowGraph) : List Label :=
  (g.spread g.rounds (g.entries.foldl Search.mark {})).seen

/-- Takes labels from a queue until the target comes out of it, the queue is empty or the rounds are
over.  What the edges of a label lead to goes into the queue when the label comes out for the first
time. -/
def seek (g : FlowGraph) (target : Label) : Nat → (seen queue : List Label) → Bool
  | 0, _, _ => false
  | _ + 1, _, [] => false
  | rounds + 1, seen, label :: rest =>
    if label == target then true
    else if seen.contains label then g.seek target rounds seen rest
    else g.seek target rounds (label :: seen) (rest ++ g.successors label)

/-- Whether an entry leads to the target. -/
def reaches (g : FlowGraph) (target : Label) : Bool := g.seek target g.rounds [] g.entries

end FlowGraph

end TraceWeave
