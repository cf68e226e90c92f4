import TypeScribe.Failure
import TypeScribe.Event

/-!
# Sources of documents

Construction never touches files: documents come from a **source**, which is asked for one location
at a time and may remember what it has served. `Catalog` is the simplest source, a table of documents
by name.
-/

namespace TypeScribe

/-- What a source answers: the fields of the document or a fault, the source as it is now, and what
it reports. -/
structure Loaded (σ : Type) where
  result : Except LoadFault (Entries Json)
  source : σ
  events : List Event := []

/-- A source of documents. -/
class Source (σ : Type) where
  /-- Asks for the document at a location. -/
  load : σ → String → Loaded σ
  /-- Every document the source may serve. -/
  shelf : σ → List Json

/-- **Budget of loads**: how deep loads may be nested in one construction. A location that is loaded is
known from then on, unless it is the empty text. A document there may be loaded inside itself, but if that
ever ends, a reference or an id has become known in between. So twice as many loads as there are references
and ids, and one more, are enough. -/
def Source.budget {σ : Type} [Source σ] (source : σ) (root : Json) : Nat :=
  let documents := root :: Source.shelf source
  2 * ((documents.flatMap Json.references).length + (documents.flatMap Json.ids).length) + 1

/-- Documents by name. -/
structure Catalog where
  documents : Entries Json
  deriving Repr, Inhabited

namespace Catalog

/-- The document of a name, which has to be an object. -/
def find (catalog : Catalog) (name : String) : Except LoadFault (Entries Json) :=
  match catalog.documents.get? name with
  | none => .error .unknown
  | some (.obj fields) => .ok fields
  | some _ => .error .notObject

instance : Source Catalog where
  load catalog name := { result := catalog.find name, source := catalog }
  shelf catalog := catalog.documents.map Prod.snd

end Catalog

end TypeScribe
