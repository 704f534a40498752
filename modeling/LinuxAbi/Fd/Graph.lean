import LinuxAbi.Fd.Types
import LinuxAbi.Lib.Run

/-!
# The epoll graph

`crates/fd/src/graph.rs`: which epoll instance watches which, with the bounded
walks that guard a new edge.

Mirroring notes:
- The recursive walks carry `path_len` and give up when it exceeds the number of
  node slots. Here they carry the room left, `nodes.len() + 1 - path_len`, and
  recurse on it; giving up is the case of no room.
- A walk threads its work budget through `&mut`; the budget after a failed walk
  is never read, so a walk returns it only together with its result.
- `saturating_add` on a count of edges cannot saturate: the edge capacity is
  below `usize::MAX`.
- The two `try_reserve_exact` calls of `try_new` are its two Boolean arguments.
-/

namespace LinuxAbi.Fd

/-! ## Data -/

structure EpollGraphLimits where
  nodeCapacity : Nat
  edgeCapacity : Nat
  maxParentsPerNode : Nat
  maxNesting : Nat
  maxWalkSteps : Nat

inductive GraphError
  | unbounded
  | noMemory
  | capacity
  | duplicateNode
  | busy
  | staleToken
  | selfCycle
  | cycle
  | nesting
  | parentLimit
  | walkLimit
  | generationExhausted
deriving DecidableEq

def EpollGraphLimits.tryNew
    (nodeCapacity edgeCapacity maxParentsPerNode maxNesting maxWalkSteps : Nat) :
    Except GraphError EpollGraphLimits :=
  if nodeCapacity = 2 ^ 64 - 1 ∨ edgeCapacity = 2 ^ 64 - 1 ∨ maxParentsPerNode = 2 ^ 64 - 1 ∨
      maxNesting = 2 ^ 64 - 1 ∨ maxWalkSteps = 2 ^ 64 - 1 then
    .error .unbounded
  else .ok { nodeCapacity, edgeCapacity, maxParentsPerNode, maxNesting, maxWalkSteps }

structure GraphNodeToken where
  graph : EpollGraphId
  slot : Nat
  generation : Nat
  epoll : EpollId
deriving DecidableEq

structure GraphEdgeToken where
  graph : EpollGraphId
  slot : Nat
  generation : Nat
deriving DecidableEq

/-- `Node`. -/
structure GraphNode where
  epoll : EpollId
  generation : Nat

/-- `Edge`. -/
structure GraphEdge where
  generation : Nat
  parent : GraphNodeToken
  child : Option GraphNodeToken

structure EpollGraph where
  id : EpollGraphId
  limits : EpollGraphLimits
  nodes : List (Option GraphNode)
  edges : List (Option GraphEdge)
  nextGeneration : Nat

namespace EpollGraph

/-! ## Registration -/

def tryNew (nodesReserved edgesReserved : Bool) (id : EpollGraphId) (limits : EpollGraphLimits) :
    Except GraphError EpollGraph :=
  if ¬ nodesReserved then .error .noMemory
  else if ¬ edgesReserved then .error .noMemory
  else
    .ok { id, limits
          nodes := List.replicate limits.nodeCapacity none
          edges := List.replicate limits.edgeCapacity none
          nextGeneration := 1 }

variable (g : EpollGraph)

def allocateGeneration : Except GraphError Nat × EpollGraph :=
  if g.nextGeneration + 1 < 2 ^ 64 then
    (.ok g.nextGeneration, { g with nextGeneration := g.nextGeneration + 1 })
  else (.error .generationExhausted, g)

def validateNode (token : GraphNodeToken) : Except GraphError Nat :=
  if token.graph ≠ g.id then .error .staleToken
  else
    match g.nodes[token.slot]? with
    | some (some node) =>
      if node.generation = token.generation ∧ node.epoll = token.epoll then .ok token.slot
      else .error .staleToken
    | _ => .error .staleToken

def register (epoll : EpollId) :
    Except GraphError GraphNodeToken × EpollGraph :=
  if g.nodes.any (fun node => node.any fun n => n.epoll = epoll) then (.error .duplicateNode, g)
  else
    match g.nodes.findIdx? Option.isNone with
    | none => (.error .capacity, g)
    | some slot =>
      match g.allocateGeneration with
      | (.error error, g) => (.error error, g)
      | (.ok generation, g) =>
        (.ok { graph := g.id, slot, generation, epoll },
          { g with nodes := g.nodes.set slot (some { epoll, generation }) })

def unregister (node : GraphNodeToken) : Except GraphError Unit × EpollGraph :=
  match g.validateNode node with
  | .error error => (.error error, g)
  | .ok _ =>
    if g.edges.any (fun edge => edge.any fun e => e.parent = node ∨ e.child = some node) then
      (.error .busy, g)
    else (.ok (), { g with nodes := g.nodes.set node.slot none })

/-! ## Bounded walks -/

def spend : Nat → Except GraphError Nat
  | 0 => .error .walkLimit
  | budget + 1 => .ok budget

/-- `self.edges.iter().flatten()`. -/
def liveEdges : List GraphEdge := g.edges.filterMap fun edge => edge

/-- The edge loop of `EpollGraph::reaches`; `visit` is the recursive call. -/
def reachesLoop (visit : GraphNodeToken → Nat → Except GraphError (Bool × Nat))
    (current : GraphNodeToken) : List GraphEdge → Nat → Except GraphError (Bool × Nat)
  | [], budget => .ok (false, budget)
  | edge :: rest, budget =>
    match spend budget with
    | .error error => .error error
    | .ok budget =>
      if edge.parent = current then
        match edge.child with
        | none => reachesLoop visit current rest budget
        | some child =>
          match visit child budget with
          | .error error => .error error
          | .ok (true, budget) => .ok (true, budget)
          | .ok (false, budget) => reachesLoop visit current rest budget
      else reachesLoop visit current rest budget

def reaches (g : EpollGraph) (target : GraphNodeToken) :
    Nat → GraphNodeToken → Nat → Except GraphError (Bool × Nat)
  | room, current, budget =>
    match spend budget with
    | .error error => .error error
    | .ok budget =>
      if current = target then .ok (true, budget)
      else
        match room with
        | 0 => .error .cycle
        | room + 1 => reachesLoop (reaches g target room) current g.liveEdges budget

/-- The edge loop of `max_descendant_depth` and `max_parent_depth`: over the edges
`next` selects, one more than the deepest recursive result; a leaf edge has
nothing below it. -/
def depthLoop (visit : GraphNodeToken → Nat → Except GraphError (Nat × Nat))
    (next : GraphEdge → Option (Option GraphNodeToken)) :
    List GraphEdge → Nat → Nat → Except GraphError (Nat × Nat)
  | [], maximum, budget => .ok (maximum, budget)
  | edge :: rest, maximum, budget =>
    match spend budget with
    | .error error => .error error
    | .ok budget =>
      match next edge with
      | none => depthLoop visit next rest maximum budget
      | some step =>
        let far : Except GraphError (Nat × Nat) := match step with
          | some node => visit node budget
          | none => .ok (0, budget)
        match far with
        | .error error => .error error
        | .ok (depth, budget) =>
          if depth + 1 < 2 ^ 64 then depthLoop visit next rest (max maximum (depth + 1)) budget
          else .error .nesting

/-- The walk that `max_descendant_depth` and `max_parent_depth` share. -/
def maxDepth (g : EpollGraph) (next : GraphNodeToken → GraphEdge → Option (Option GraphNodeToken)) :
    Nat → GraphNodeToken → Nat → Except GraphError (Nat × Nat)
  | room, current, budget =>
    match spend budget with
    | .error error => .error error
    | .ok budget =>
      match room with
      | 0 => .error .cycle
      | room + 1 => depthLoop (maxDepth g next room) (next current) g.liveEdges 0 budget

/-- `EpollGraph::max_descendant_depth`: follows the edges out of `current`. -/
def maxDescendantDepth :
    Nat → GraphNodeToken → Nat → Except GraphError (Nat × Nat) :=
  g.maxDepth fun current edge => if edge.parent ≠ current then none else some edge.child

/-- `EpollGraph::max_parent_depth`: follows the edges into `current` backwards. -/
def maxParentDepth :
    Nat → GraphNodeToken → Nat → Except GraphError (Nat × Nat) :=
  g.maxDepth fun current edge =>
    if edge.child ≠ some current then none else some (some edge.parent)

/-- The loop of `EpollGraph::distinct_parent_count`; `earlier` is `edges[..index]`. -/
def parentCountLoop (child : GraphNodeToken) :
    List (Option GraphEdge) → List (Option GraphEdge) → Nat → Nat
  | _, [], count => count
  | earlier, none :: rest, count => parentCountLoop child (earlier ++ [none]) rest count
  | earlier, some edge :: rest, count =>
    if edge.child ≠ some child then parentCountLoop child (earlier ++ [some edge]) rest count
    else if earlier.any (fun e => e.any fun e => e.child = some child ∧ e.parent = edge.parent) then
      parentCountLoop child (earlier ++ [some edge]) rest count
    else parentCountLoop child (earlier ++ [some edge]) rest (count + 1)

def distinctParentCount (child : GraphNodeToken) : Nat :=
  parentCountLoop child [] g.edges 0

/-! ## Interest edges -/

/-- The checks on an epoll child at the head of `EpollGraph::add_interest`. -/
def validateChild (parent child : GraphNodeToken) : Except GraphError Unit :=
  match g.validateNode child with
  | .error error => .error error
  | .ok _ =>
    if parent = child then .error .selfCycle
    else
      let alreadyParent : Bool :=
        g.liveEdges.any fun edge => edge.child = some child ∧ edge.parent = parent
      if ¬ alreadyParent ∧ g.distinctParentCount child ≥ g.limits.maxParentsPerNode then
        .error .parentLimit
      else .ok ()

/-- The three walks of `EpollGraph::add_interest`: no cycle, and the longest path
through the new edge. -/
def combinedDepth (parent : GraphNodeToken) (child : Option GraphNodeToken) :
    Except GraphError Nat :=
  let room := g.nodes.length + 1
  let checked : Except GraphError (Bool × Nat) := match child with
    | some child => g.reaches parent room child g.limits.maxWalkSteps
    | none => .ok (false, g.limits.maxWalkSteps)
  match checked with
  | .error error => .error error
  | .ok (true, _) => .error .cycle
  | .ok (false, budget) =>
    match g.maxParentDepth room parent budget with
    | .error error => .error error
    | .ok (parentDepth, budget) =>
      let below : Except GraphError (Nat × Nat) := match child with
        | some child => g.maxDescendantDepth room child budget
        | none => .ok (0, budget)
      match below with
      | .error error => .error error
      | .ok (childDepth, _) =>
        if parentDepth + 1 + childDepth < 2 ^ 64 then .ok (parentDepth + 1 + childDepth)
        else .error .nesting

def addInterest (parent : GraphNodeToken) (child : Option GraphNodeToken) :
    Except GraphError GraphEdgeToken × EpollGraph :=
  match g.validateNode parent with
  | .error error => (.error error, g)
  | .ok _ =>
    let childOk : Except GraphError Unit := match child with
      | some child => g.validateChild parent child
      | none => .ok ()
    match childOk with
    | .error error => (.error error, g)
    | .ok () =>
      match g.edges.findIdx? Option.isNone with
      | none => (.error .capacity, g)
      | some slot =>
        match g.combinedDepth parent child with
        | .error error => (.error error, g)
        | .ok combined =>
          if combined > g.limits.maxNesting then (.error .nesting, g)
          else
            match g.allocateGeneration with
            | (.error error, g) => (.error error, g)
            | (.ok generation, g) =>
              (.ok { graph := g.id, slot, generation },
                { g with edges := g.edges.set slot (some { generation, parent, child }) })

def removeInterest (token : GraphEdgeToken) :
    Except GraphError Unit × EpollGraph :=
  if token.graph ≠ g.id then (.error .staleToken, g)
  else
    match g.edges[token.slot]? with
    | some (some edge) =>
      if edge.generation ≠ token.generation then (.error .staleToken, g)
      else (.ok (), { g with edges := g.edges.set token.slot none })
    | _ => (.error .staleToken, g)

end EpollGraph

/-! ## The graph as one object -/

/-- One call of a mutating operation. -/
inductive GraphCall
  | register (epoll : EpollId)
  | unregister (node : GraphNodeToken)
  | addInterest (parent : GraphNodeToken) (child : Option GraphNodeToken)
  | removeInterest (token : GraphEdgeToken)

/-- The value a successful call returns. -/
inductive GraphReply
  | done
  | node (token : GraphNodeToken)
  | edge (token : GraphEdgeToken)

/-- Runs one call. -/
def EpollGraph.call (g : EpollGraph) : GraphCall → Except GraphError GraphReply × EpollGraph
  | .register epoll => ((g.register epoll).1.map .node, (g.register epoll).2)
  | .unregister node => ((g.unregister node).1.map fun _ => .done, (g.unregister node).2)
  | .addInterest parent child =>
    ((g.addInterest parent child).1.map .edge, (g.addInterest parent child).2)
  | .removeInterest token =>
    ((g.removeInterest token).1.map fun _ => .done, (g.removeInterest token).2)

end LinuxAbi.Fd
