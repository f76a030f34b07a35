/-!
# Reports

A report is a message together with the messages of what caused it. Each layer that passes a failure
on may wrap it in a message of its own; the text of a report shows the outermost message first.
-/

namespace GroupedExtrema

/-- A message and the messages of its causes, from the nearest to the first one. -/
structure Report where
  message : String
  causes : List String
deriving DecidableEq, Inhabited

namespace Report

/-- A report without a cause. -/
def ofMessage (message : String) : Report := ⟨message, []⟩

/-- A report that something is not there yet. -/
def notImplemented (what : String) : Report := .ofMessage ("Not yet implemented: " ++ what)

/-- A report that a value could not be formatted. -/
def formatting : Report :=
  ⟨"Format error", ["an error occurred when formatting an argument"]⟩

/-- The report of a message that is caused by another report. -/
def wrap (message : String) (r : Report) : Report := ⟨message, r.message :: r.causes⟩

/-- The report that caused this one, if any. -/
def cause? (r : Report) : Option Report :=
  match r.causes with
  | [] => none
  | m :: ms => some ⟨m, ms⟩

/-- The messages, outermost first, each cause on a line of its own. -/
def display (r : Report) : String :=
  r.causes.foldl (fun text m => text ++ "\nError source: " ++ m) r.message

/-- Wraps the report of a failure and leaves a success alone. -/
def context {α : Type} (message : String) : Except Report α → Except Report α
  | .ok a => .ok a
  | .error r => .error (wrap message r)

/-- Wraps the report of a failure in a message that is only then made. -/
def contextWith {α : Type} (message : Unit → String) : Except Report α → Except Report α
  | .ok a => .ok a
  | .error r => .error (wrap (message ()) r)

/-- The value that has to be there, or a report that it is missing. -/
def require {α : Type} (message : String) : Option α → Except Report α
  | some a => .ok a
  | none => .error (.ofMessage message)

end Report

end GroupedExtrema
