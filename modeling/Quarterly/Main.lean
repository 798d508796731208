import Quarterly.Command.Arguments

/-!
# The command line

Executes the command that the words of a command line give, over the files of the system.
-/

namespace Quarterly

namespace SystemFiles

/-- What stands under a path in the system. -/
def find (path : Path) : IO Entry := do
  let place := (← IO.currentDir) / path.text
  if ← place.isDir then return .folder
  else if ← place.pathExists then return .file (← IO.FS.readFile place)
  else return .absent

/-- Write a text under a path in the system. -/
def write (path : Path) (text : String) : IO (Except StorageFault Unit) := do
  let parent := path.parent
  match ← find parent with
  | .file _ => return .error (.fileExists parent)
  | _ =>
    try
      IO.FS.createDirAll parent.text
    catch _ => return .error (.notAFolder parent)
    try
      IO.FS.writeFile path.text text
      return .ok ()
    catch _ => return .error (.isAFolder path)

instance : Storage IO where
  base := return .ofText (← IO.currentDir).toString
  find := find
  write := write

end SystemFiles

/-- A number of nanoseconds in milliseconds, with two places. -/
def millisecondsText (nanoseconds : Nat) : String :=
  let hundredths := (nanoseconds + 5000) / 10000
  toString (hundredths / 100) ++ "." ++ Moment.padded 2 (hundredths % 100)

/-- What is told to someone whose words give no command. -/
def usage : String :=
  "Usage: quarter-signal (evaluate | validate | run | init | check | version) [arguments]"

/-- Show a transcript. -/
def showTranscript (t : Command.Transcript) (milliseconds : String) : IO UInt32 := do
  for n in t.shownNotices do
    IO.eprintln (n.level.name ++ " " ++ n.message)
  IO.print (t.outputText milliseconds)
  IO.eprint t.errorText
  return t.exitCode.toUInt32

end Quarterly

open Quarterly in
/-- Execute the command that the words of the command line give. -/
def main (words : List String) : IO UInt32 := do
  match Command.ofWords? words with
  | none =>
    IO.eprintln usage
    return 2
  | some command =>
    let start ← IO.monoNanosNow
    let transcript ← (command.execute : IO Command.Transcript)
    let stop ← IO.monoNanosNow
    showTranscript transcript (millisecondsText (stop - start))
