import Quarterly.Configuration
import Quarterly.Storage
import Quarterly.Yaml.Reader
import Quarterly.Yaml.Writer

/-!
# Configuration files

Configurations are kept as YAML. A file is read, laid over the standard configuration and checked;
a configuration is written with all its fields.
-/

namespace Quarterly

/-- Why there is no configuration. -/
inductive ConfigurationFault where
  | noFile (path : Path)
  | storage (cause : StorageFault)
  /-- The text is not YAML. -/
  | unreadable
  /-- The text holds nothing. -/
  | empty (path : Path)
  /-- Something other than a mapping stands in the file. -/
  | notAMapping (given : Datum)
  /-- Something other than a mapping or a path is given for a configuration. -/
  | notAConfiguration (given : Datum)
  | invalid (issues : List Schema.Issue)

/-- The name of the kind of a datum in messages. -/
def Datum.kindName : Datum → String
  | .null => "NoneType"
  | .bool _ => "bool"
  | .int _ => "int"
  | .double _ => "float"
  | .text _ => "str"
  | .date _ => "datetime.date"
  | .moment _ => "datetime.datetime"
  | .list _ => "list"
  | .mapping _ => "dict"

namespace ConfigurationFault

/-- A line about an issue. -/
def issueLine (i : Schema.Issue) : String :=
  "\n" ++ ".".intercalate i.path ++ ": " ++ i.problem.message

/-- The wording of a fault. Issues follow their headline, one to a line. -/
def message : ConfigurationFault → String
  | noFile path => "Configuration file not found: " ++ path.text
  | storage cause => cause.message
  | unreadable => "Invalid YAML file"
  | empty path => "Empty configuration file: " ++ path.text
  | notAMapping given => "'" ++ given.kindName ++ "' object has no attribute 'items'"
  | notAConfiguration given => "Invalid config type: <class '" ++ given.kindName ++ "'>"
  | invalid issues =>
    "Invalid configuration: " ++ Schema.headline Configuration.modelName issues ++
      String.join (issues.map issueLine)

end ConfigurationFault

namespace Configuration

/-- The entries that a configuration is made from: those that are given, laid over the standard
ones. -/
def entriesOf : Datum → Except ConfigurationFault (Keyed Datum)
  | .mapping entries => pure (overStandard entries)
  | d => throw (.notAMapping d)

/-- The configuration that a datum gives. -/
def ofDatum (d : Datum) : Except ConfigurationFault Configuration := do
  (ofEntries (← entriesOf d)).mapError .invalid

/-- The datum in a YAML text that came from a path. -/
def dataIn (path : Path) (text : String) : Except ConfigurationFault Datum :=
  match Yaml.read? text with
  | none => throw .unreadable
  | some .null => throw (.empty path)
  | some d => pure d

/-- A configuration as YAML. -/
def yaml (c : Configuration) : String := Yaml.render c.toDatum

variable {m : Type → Type} [Monad m] [Storage m]

/-- The datum in a configuration file. -/
def loadData (path : String) : m (Except ConfigurationFault Datum) := do
  let path := Path.ofText path
  match ← Storage.find path with
  | .absent => return .error (.noFile path)
  | .folder => return .error (.storage (.isAFolder path))
  | .file text => return dataIn path text

/-- The configuration in a file. -/
def load (path : String) : m (Except ConfigurationFault Configuration) := do
  return (← loadData path).bind ofDatum

/-- The configuration that a datum gives: its entries, or the path of a file. -/
def obtain (given : Datum) : m (Except ConfigurationFault Configuration) :=
  match given with
  | .text path => load path
  | .mapping entries => return ofDatum (.mapping entries)
  | d => return .error (.notAConfiguration d)

/-- Write a configuration to a file. -/
def save (c : Configuration) (path : String) : m (Except StorageFault Unit) :=
  Storage.write (.ofText path) c.yaml

end Configuration

end Quarterly
