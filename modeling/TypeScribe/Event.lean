import TypeScribe.Text.Shown

/-!
# Events

What a run reports while it works, and the line of the log each event becomes.
-/

namespace TypeScribe

/-- Something worth a line in the log. -/
inductive Event where
  | queued (count : Nat)
  | registered (path key : String)
  | resolving (ref location : String)
  | loading (file : String)
  | declaring (name path : String)
  | dropping (name path : String)
  | replaced (file : String)
  | wrote (count : Nat) (file : String)
  deriving Repr, DecidableEq

/-- The line of an event. -/
def Event.line : Event → String
  | .queued count =>
    "DEBUG json_schema_to_ts.compiler.registry: Queued root schema #" ++ count.repr
  | .registered path key =>
    "DEBUG json_schema_to_ts.compiler.registry: Registered " ++ path ++ " as " ++ Text.shown key
  | .resolving ref location =>
    "DEBUG json_schema_to_ts.compiler.registry: Resolving $ref " ++ Text.shown ref ++ " from " ++
      location
  | .loading file => "DEBUG json_schema_to_ts.compiler.loader: Loading schema file " ++ file
  | .declaring name path =>
    "DEBUG json_schema_to_ts.compiler.registry: Declaring " ++ name ++ " from " ++ path
  | .dropping name path =>
    "DEBUG json_schema_to_ts.compiler.registry: Dropping duplicate declaration " ++ name ++
      " from " ++ path
  | .replaced file => "DEBUG json_schema_to_ts.compiler.writer: Replaced " ++ file
  | .wrote count file =>
    "INFO json_schema_to_ts.json_schema_to_ts: Wrote " ++ count.repr ++ " schema(s) to " ++ file

end TypeScribe
