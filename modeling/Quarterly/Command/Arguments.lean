import Quarterly.Command.Basic

/-!
# Arguments

Commands as words of a command line: the name of a command, then arguments in the order of its
parameters or behind flags with their names. A flag takes the word behind it; without one it stands
for true, and with `no` in front of its name for false. A word that writes a number, a truth value,
nothing or a quoted text stands for that.
-/

namespace Quarterly.Command

/-! ## Words as data -/

/-- Digits with single underscores between them, at least one digit. -/
def isDigitRow (cs : List Char) : Bool :=
  cs.head?.any Char.isDigit && (Schema.Check.joinDigits cs).any (·.all Char.isDigit)

/-- The integer that a word without a sign writes. Only zero starts with zeros. -/
def naturalWord? (cs : List Char) : Option Int :=
  if !isDigitRow cs then none
  else
    let digits := cs.filter Char.isDigit
    if digits.head? == some '0' && digits.any (· != '0') then none
    else some (Text.decimalNumber digits)

/-- The double that a word without a sign writes. -/
def doubleWord? (cs : List Char) : Option Float :=
  let starts := match cs with
    | '.' :: c :: _ => c.isDigit
    | c :: _ => c.isDigit
    | [] => false
  if starts && cs.any (fun c => c == '.' || c == 'e' || c == 'E') then
    (Schema.Check.joinDigits cs).bind wholeFloat?
  else none

/-- The number that a word writes. -/
def numberWord? (cs : List Char) : Option Datum :=
  let (negative, unsigned) := Numeral.splitSign cs
  match naturalWord? unsigned with
  | some i => some (.int (if negative then -i else i))
  | none => (doubleWord? unsigned).map fun x => .double (if negative then -x else x)

/-- The text that a word has between quotes. -/
def quotedWord? (cs : List Char) : Option String :=
  match cs with
  | quote :: rest =>
    let body := rest.dropLast
    if (quote == '"' || quote == '\'') && rest.getLast? == some quote &&
        !body.contains quote && !body.contains '\\' then some (String.ofList body)
    else none
  | [] => none

/-- What a word stands for. -/
def wordDatum (word : String) : Datum :=
  match word with
  | "True" => .bool true
  | "False" => .bool false
  | "None" => .null
  | word => ((numberWord? word.toList).or ((quotedWord? word.toList).map .text)).getD (.text word)

/-! ## Arguments by name -/

/-- The parameters of a command, in order. -/
def parameters? : String → Option (List String)
  | "evaluate" =>
    some ["data", "ticker", "formula", "quarters", "trace", "window_size", "verbose"]
  | "validate" => some ["formula", "as_json"]
  | "run" => some ["config", "output", "verbose"]
  | "init" => some ["output", "force"]
  | "check" => some ["config"]
  | "version" => some []
  | _ => none

/-- The command with given arguments, unless one that it needs is missing. -/
def ofNamed? (name : String) (arguments : Keyed Datum) : Option Command :=
  let text? (key : String) : Option String := (arguments.get? key).map Datum.plain
  let flag (key : String) (default : Bool) : Bool :=
    ((arguments.get? key).map Datum.truth).getD default
  match name with
  | "evaluate" => do
    return .evaluate
      { data := ← text? "data", ticker := ← text? "ticker", formula := ← text? "formula"
        quarters := (arguments.get? "quarters").bind Quarter.choice?
        trace := (arguments.get? "trace").getD (.bool false)
        windowSize := (arguments.get? "window_size").getD .null
        verbose := (arguments.get? "verbose").getD (.bool false) }
  | "validate" => do return .validate (← text? "formula") (flag "as_json" false)
  | "run" => do
    let output := (arguments.get? "output").bind fun d => if d.truth then some d.plain else none
    return .run (← text? "config") output (flag "verbose" true)
  | "init" => some (.init ((text? "output").getD "signals.yaml") (flag "force" false))
  | "check" => do return .check (← text? "config")
  | "version" => some .version
  | _ => none

/-! ## Words of a command line -/

/-- Whether a word is a flag: two dashes, or a dash and a letter. -/
def isFlag (word : String) : Bool :=
  match word.toList with
  | '-' :: c :: _ => c == '-' || c.isAlpha
  | _ => false

/-- The name in a flag, and its value if the flag has one behind an equals sign. -/
def splitFlag (word : String) : List Char × Option String :=
  let cs := word.toList.dropWhile (· == '-')
  let name := cs.takeWhile (· != '=')
  let key := name.map fun c => if c = '-' then '_' else c
  (key, if cs.contains '=' then some (String.ofList (cs.drop (name.length + 1))) else none)

/-- The parameter that a flag names: by its whole name, or by a letter that starts no other. -/
def parameterOf? (parameters : List String) (key : List Char) : Option String :=
  let name := String.ofList key
  if parameters.contains name then some name
  else match key with
    | [c] =>
      match parameters.filter fun p => p.toList.head? == some c with
      | [p] => some p
      | _ => none
    | _ => none

/-- The parameter that a flag takes back with `no` in front of its name. -/
def deniedParameter? (parameters : List String) (key : List Char) : Option String :=
  match key with
  | 'n' :: 'o' :: rest =>
    let name := String.ofList rest
    if parameters.contains name then some name else none
  | _ => none

/-- The argument that a flag gives. -/
structure FlagArgument where
  parameter : String
  value : Datum
  /-- Whether the value is the word behind the flag. -/
  takesNext : Bool := false

/-- The argument that a flag without a word of its own gives: true, or false if it is denied. -/
def switch? (parameters : List String) (key : List Char) : Option FlagArgument :=
  match parameterOf? parameters key with
  | some p => some { parameter := p, value := .bool true }
  | none => (deniedParameter? parameters key).map fun p => { parameter := p, value := .bool false }

/-- The argument that a flag gives before the word that comes next; none if the flag names no
parameter. -/
def flagArgument? (parameters : List String) (word : String) (next : Option String) :
    Option FlagArgument :=
  let (key, value) := splitFlag word
  match value, next with
  | some value, _ =>
    (parameterOf? parameters key).map fun p => { parameter := p, value := wordDatum value }
  | none, some next =>
    if isFlag next then switch? parameters key
    else (parameterOf? parameters key).map fun p =>
      { parameter := p, value := wordDatum next, takesNext := true }
  | none, none => switch? parameters key

/-- The words of a command line, sorted into arguments with names and others. -/
structure Sorted where
  named : Keyed Datum := []
  others : List Datum := []

/-- Sort the words of a command line behind those that are sorted already. The last argument for a
parameter counts. -/
def sortWords? (parameters : List String) (done : Sorted) : List String → Option Sorted
  | [] => some done
  | word :: rest =>
    if isFlag word then
      match flagArgument? parameters word rest.head? with
      | some a =>
        sortWords? parameters { done with named := done.named.put a.parameter a.value }
          (rest.drop (if a.takesNext then 1 else 0))
      | none => none
    else sortWords? parameters { done with others := done.others ++ [wordDatum word] } rest
  termination_by words => words.length
  decreasing_by all_goals simp_wf; try omega

/-- The arguments of a command. Words without a flag go to the parameters that have no argument yet,
in order; none may be left over. -/
def arguments? (parameters : List String) (words : List String) : Option (Keyed Datum) := do
  let sorted ← sortWords? parameters {} words
  let free := parameters.filter fun p => !sorted.named.has p
  guard (sorted.others.length ≤ free.length)
  return free.zip sorted.others ++ sorted.named

/-- The command that the words of a command line give. -/
def ofWords? : List String → Option Command
  | [] => none
  | name :: words => do
    let parameters ← parameters? name
    ofNamed? name (← arguments? parameters words)

end Quarterly.Command
