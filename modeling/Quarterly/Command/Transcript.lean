import Quarterly.Batch

/-!
# Transcripts

What a command prints, to its output and about its errors, the notices that it gives, and the code
with which it exits. How long an evaluation took is known only to whoever runs the command, so the
line about it holds a place for that time.
-/

namespace Quarterly.Command

/-- A line of output. -/
inductive Line where
  | text (s : String)
  /-- How many steps an evaluation took, and how long. -/
  | steps (count : Nat)
  deriving Repr, DecidableEq

namespace Line

/-- A line with its end, given the milliseconds that an evaluation took. -/
def render (milliseconds : String) : Line → String
  | text s => s ++ "\n"
  | steps count => "  Steps: " ++ toString count ++ ", " ++ milliseconds ++ " ms\n"

end Line

structure Transcript where
  exitCode : Nat := 0
  output : List Line := []
  errors : List String := []
  notices : List Batch.Notice := []
  /-- Whether all notices are shown, and not only warnings. -/
  verbose : Bool := false

namespace Transcript

/-- A transcript that ends with an error. -/
def failed (errors : List String) : Transcript := { exitCode := 1, errors }

/-- The text that goes to the output. -/
def outputText (t : Transcript) (milliseconds : String) : String :=
  String.join (t.output.map (Line.render milliseconds))

/-- The text that goes to the errors. -/
def errorText (t : Transcript) : String := String.join (t.errors.map (· ++ "\n"))

/-- The notices that are shown. -/
def shownNotices (t : Transcript) : List Batch.Notice :=
  t.notices.filter fun n => t.verbose || n.level == .warning

end Transcript

end Quarterly.Command
