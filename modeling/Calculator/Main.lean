import Calculator.Program

namespace Calculator

def usageText : String :=
  "\n".intercalate
    ["Usage: calculator [-e EXPRESSION] [-v] [-l]", "", "Options:",
     "  -e, --expression EXPRESSION  Evaluate this expression and exit",
     "  -v, --verbose                Show how each expression was read",
     "  -l, --list-functions         Show the functions expressions may call",
     "  -h, --help                   Show this text",
     "  -V, --version                Show the version", ""]

def Usage.text : Usage → String
  | help => usageText
  | version => "calculator 0.1.0\n"
  | unknownArgument => "error: unexpected argument\n\n" ++ usageText
  | argumentConflict => "error: an option is given twice\n\n" ++ usageText
  | invalidValue => "error: an option lacks its value\n\n" ++ usageText
  | tooManyValues => "error: an option takes no value\n\n" ++ usageText

partial def readLine (input : IO.FS.Stream) (line : ByteArray) : IO ByteArray := do
  let next ← input.read 1
  let line := line ++ next
  if next.isEmpty || next.toList = [10] then return line else readLine input line

/-- Prompts for lines and takes the step that each asks for, until the session ends. -/
partial def holdSession (verbose : Bool) (input output errors : IO.FS.Stream) : IO UInt32 := do
  output.putStr promptText
  output.flush
  let line ← readLine input ByteArray.empty
  if line.isEmpty then return 0
  match step verbose line.toList with
  | .ends none => return 0
  | .ends (some e) =>
    errors.putStr (failureText e.message)
    return 1
  | .goesOn written =>
    if let some w := written then
      let stream := match w.stream with
        | .output => output
        | .errors => errors
      stream.putStr w.text
    holdSession verbose input output errors

def deliver : Response → IO UInt32
  | .usage reason => do
    let stream ← if reason.exitCode = 0 then IO.getStdout else IO.getStderr
    stream.putStr reason.text
    return UInt32.ofNat reason.exitCode
  | .finished exit output errors => do
    (← IO.getStdout).putStr output
    (← IO.getStderr).putStr errors
    return UInt32.ofNat exit

end Calculator

open Calculator in
/-- Runs the program. A session is held line by line; whatever else the arguments ask for needs no
input. -/
def main (arguments : List String) : IO UInt32 := do
  match Options.ofArguments arguments with
  | .ok ⟨none, verbose, false⟩ =>
    try
      (← IO.getStdout).putStr (banner ++ "\n")
      holdSession verbose (← IO.getStdin) (← IO.getStdout) (← IO.getStderr)
    catch e =>
      (← IO.getStderr).putStr (failureText s!"I/O error: {e}")
      return 1
  | _ => deliver (Program.run arguments [])
