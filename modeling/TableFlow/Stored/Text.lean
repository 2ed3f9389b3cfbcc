import TableFlow.Json.Tree
import TableFlow.Json.Write
import TableFlow.Stored.Record
import TableFlow.Yaml.Write

/-!
# Pipelines as text

A pipeline is stored as the list of its steps, in YAML or in JSON. The extension of a file's
name tells which.
-/

namespace TableFlow

inductive Format where
  | yaml
  | json
  deriving DecidableEq, Repr

namespace Format

/-- What follows the last point of a file name, unless nothing stands before that point. -/
def extension? (path : String) : Option String :=
  let name := path.toList.reverse.takeWhile (· != '/')
  let extension := name.takeWhile (· != '.')
  if extension.length + 1 < name.length then some (String.ofList extension.reverse) else none

/-- JSON for the extension `json` in upper or lower case, or else YAML. -/
def ofPath (path : String) : Format :=
  match extension? path with
  | some e => if e.toLower = "json" then json else yaml
  | none => yaml

end Format

namespace Pipeline

def document (p : Pipeline) : Document := .list (Step.records p.steps)

def toText (p : Pipeline) : Format → String
  | .yaml => Yaml.text p.document
  | .json => Json.pretty p.document

def readSteps (source : String) : Format → Except Error (List Step)
  | .yaml => ((Yaml.readRecords? "op" source).bind Step.ofDocument?).elim (.error .badYaml) .ok
  | .json => ((Json.read? source).bind Step.ofDocument?).elim (.error .badJson) .ok

def ofText (source : String) (format : Format) : Except Error Pipeline := do
  ofSteps (← readSteps source format)

/-- The pipeline that a file stores, from its contents if it can be read. -/
def load (path : String) (contents : Option String) : Except Error Pipeline :=
  match contents with
  | some source => ofText source (.ofPath path)
  | none => .error (.fileAccess path)

end Pipeline

end TableFlow
