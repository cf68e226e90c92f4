import TypeScribe.Graph.Basic

/-!
# Surveys

A survey numbers the nodes of a graph **in the order in which they are discovered**: a node before
the nodes it holds. Numbers given once stay; a later survey of the grown graph goes on counting.
-/

namespace TypeScribe

/-- The nodes discovered so far, in order. -/
structure Survey where
  order : Array NodeId := #[]
  deriving Repr, Inhabited

namespace Survey

/-- The number of a node. -/
def number? (survey : Survey) (id : NodeId) : Option Nat := survey.order.idxOf? id

/-- The node of a number. -/
def node? (survey : Survey) (number : Nat) : Option NodeId := survey.order[number]?

/-- Numbers a node, if it is new, and then the nodes it holds, going at most `depth` nodes deep. -/
def discoverWithin (graph : Graph) : (depth : Nat) → Survey → NodeId → Survey
  | 0, survey, _ => survey
  | depth + 1, survey, id =>
    if survey.order.contains id then survey
    else
      let children := ((graph.node? id).map Node.children).getD []
      children.foldl (discoverWithin graph depth) ⟨survey.order.push id⟩

/-- Numbers a node, if it is new, and then the nodes it holds. -/
def discover (graph : Graph) (survey : Survey) (id : NodeId) : Survey :=
  discoverWithin graph graph.size survey id

/-- **Goes over a graph**: the given nodes first, then those of the table by increasing key, the
declared ones, and what the nodes discovered so far have come to hold. -/
def extend (survey : Survey) (graph : Graph) (first : List NodeId) (emission : List NodeId) : Survey :=
  let survey := (first ++ graph.table.sorted.map Prod.snd ++ emission).foldl (discover graph) survey
  let held := survey.order.toList.flatMap fun id => ((graph.node? id).map Node.children).getD []
  held.foldl (discover graph) survey

end Survey

end TypeScribe
