import TypeScribe.Graph.Basic
import TypeScribe.Layout
import TypeScribe.Settings

/-!
# Drafts

A draft is what conversion writes about a graph. Every node has a **page**: whether its conversion
has started, its inline text, and, if it is declared, its block text. The pages and the order in
which declarations were met make up the **draft**.

Rendering reads a draft: of the declarations of one name the first is kept, and what is kept is joined
in the order in which it was met.
-/

namespace TypeScribe

/-- What has been written about a node. -/
structure Page where
  started : Bool := false
  inline : Option String := none
  block : Option String := none
  deriving Repr, DecidableEq, Inhabited

/-- The pages written so far, and the declared nodes in the order in which they were met. -/
structure Draft where
  pages : Array Page := #[]
  emission : Array NodeId := #[]
  deriving Repr, Inhabited

namespace Draft

/-- The page of a node; a node nothing is written about has a blank one. -/
def page (draft : Draft) (id : NodeId) : Page := draft.pages[id]?.getD {}

/-- Blank pages up to a count. -/
def padded (pages : Array Page) (count : Nat) : Array Page :=
  pages ++ Array.replicate (count - pages.size) ({} : Page)

/-- Replaces the page of a node. -/
def turn (draft : Draft) (id : NodeId) (f : Page → Page) : Draft :=
  { draft with pages := (padded draft.pages (id + 1)).modify id f }

/-- Adds a declaration. -/
def emit (draft : Draft) (id : NodeId) : Draft := { draft with emission := draft.emission.push id }

/-- The declarations that are written, and those that are dropped because one of that name comes
before; `seen` holds the names so far. -/
def keep (graph : Graph) : (seen : List String) → List NodeId → List NodeId × List NodeId
  | _, [] => ([], [])
  | seen, id :: rest =>
    let name := ((graph.node? id).map Node.name).getD ""
    if seen.contains name then
      let (kept, dropped) := keep graph seen rest
      (kept, id :: dropped)
    else
      let (kept, dropped) := keep graph (name :: seen) rest
      (id :: kept, dropped)

/-- The declarations that are written. -/
def kept (draft : Draft) (graph : Graph) : List NodeId := (keep graph [] draft.emission.toList).1

/-- The declarations that are dropped. -/
def dropped (draft : Draft) (graph : Graph) : List NodeId := (keep graph [] draft.emission.toList).2

/-- The blocks of nodes, all of which have to be finished. -/
def blocks (draft : Draft) (ids : List NodeId) : Except Failure (List String) :=
  ids.mapM fun id =>
    match (draft.page id).block with
    | some text => .ok text
    | none => .error .declarationUnfinished

/-- **Rendering**: the kept declarations in order, under a comment if one is asked for, with an empty
line in between. -/
def render (draft : Draft) (graph : Graph) (settings : Settings) (commandLine : String) :
    Except Failure String := do
  let blocks ← draft.blocks (draft.kept graph)
  let comment := if settings.comment.isVacant then [] else [Layout.headerComment commandLine]
  return "\n\n".intercalate (comment ++ blocks)

end Draft

end TypeScribe
