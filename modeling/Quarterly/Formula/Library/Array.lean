import Quarterly.Formula.Library.Basic

/-!
# Array functions
-/

namespace Quarterly.Formula.Library

/-- The value at a position counted from one. -/
def atPosition? (values : List Value) (position : Int) : Option Value :=
  if 1 ≤ position then values[(position - 1).toNat]? else none

/-- The choice that a number selects. -/
def chooseOne (index : Value) (choices : List Value) : Except NumericFault Answer :=
  match index with
  | .number n => do
    if ← n.isFinite then
      return .value ((atPosition? choices (← n.roundHalfUp)).getD .null)
    else pure .null
  | _ => pure .null

/-- Choose among the later arguments by the first one. An array chooses by its length alone: as
many choices from the start as it has items, filled up with null. -/
def chooseBy (args : List Value) : Except Fault Answer := do
  checkArity "CHOOSE" (.atLeast 2) args.length
  let choices := args.drop 1
  match args.headD .null with
  | .array _ items => pure (.newArray ((List.range items.length).map fun i => choices.getD i .null))
  | index => chooseOne index choices

/-- The whole part of a finite number, at least zero, and a default for anything else. -/
def countArgument (v : Value) (default : Nat) : Except NumericFault Nat :=
  match v with
  | .number n => do if ← n.isFinite then return (← n.floor).toNat else pure default
  | _ => pure default

/-- A number, and one for anything else. -/
def stepArgument : Value → Number
  | .number n => n
  | _ => .int 1

/-- The numbers `start + i · step` for `i` from `first` on, `count` of them. -/
def progression (start step : Number) : Nat → Nat → Except NumericFault (List Value)
  | _, 0 => pure []
  | first, count + 1 => do
    let n ← start.add (← (Number.int first).mul step)
    let rest ← progression start step (first + 1) count
    return .number n :: rest

/-- Rows times columns numbers in even steps. -/
def sequence (args : List Value) : Except Fault Answer := do
  let rows ← countArgument (args.getD 0 .null) 0
  let columns ← countArgument (args.getD 1 .null) 1
  let start := stepArgument (args.getD 2 .null)
  let step := stepArgument (args.getD 3 .null)
  return .newArray (← progression start step 0 (rows * columns))

/-- The item at a position counted from one; positions before the first select the first. -/
def index (args : List Value) : Except Fault Answer := do
  checkArity "INDEX" (.atLeast 2) args.length
  match args.headD .null with
  | .array _ items =>
    let row ← match args.getD 1 .null with
      | .number n => do if ← n.isFinite then n.roundHalfUp else pure 0
      | _ => pure 0
    return .value ((atPosition? items (max 1 row)).getD .null)
  | _ => pure .null

/-- The drift that a look-up overlooks between numbers. -/
def lookupTolerance : Float := 1e-10

/-- Whether a key is the value looked for. -/
def matchesKey (wanted key : Value) : Except NumericFault Bool :=
  match wanted, key with
  | .number a, .number b => return (← a.sub b).abs.less (.double lookupTolerance)
  | _, _ => pure (wanted.strictEqual key)

/-- The entry of the first key that matches. -/
def findEntry (wanted : Value) (default : Value) :
    List (Value × Option Value) → Except NumericFault Value
  | [] => pure default
  | (key, entry) :: rest => do
    if ← matchesKey wanted key then
      return match entry with
        | none | some .null => default
        | some v => v
    else findEntry wanted default rest

/-- Look a value up among keys and answer with the entry at the same place. The sixth argument
minus one searches from the end. -/
def lookup (args : List Value) : Except Fault Answer := do
  checkArity "XLOOKUP" (.atLeast 3) args.length
  let keys := (args.getD 1 .null).toItems
  let entries := (args.getD 2 .null).toItems
  let fromEnd := match args.getD 5 .null with
    | .number n => n.equal (.int (-1))
    | _ => false
  let pairs := keys.mapIdx fun i key => (key, entries[i]?)
  return .value (← findEntry (args.headD .null) (args.getD 3 .null)
    (if fromEnd then pairs.reverse else pairs))

/-- The items and the lambda that a mapping is made of. -/
def mapArguments (args : List Value) : Except Fault (List Value × Lambda) := do
  checkArity "MAP" (.exactly 2) args.length
  match args.getD 1 .null with
  | .lambda _ f => pure ((args.headD .null).toItems, f)
  | _ => throw .notALambda

end Quarterly.Formula.Library
