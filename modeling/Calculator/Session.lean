import Calculator.Line
import Calculator.Text.Blank

/-!
An interactive session: lines are read one by one, and each is answered before the next is read.
Results and failures go to streams of their own. A line without an answer does not end the
session; only the command to leave, the end of the input, or a stream that fails does. A session
is described by what it writes, how much it reads and how it ends.
-/

namespace Calculator

def banner : String := "Mini Math Interpreter. Enter an expression or 'exit' to quit."

def exitCommand : String := "exit"

def promptText : String := "> "

inductive Stream
  | output
  | errors
deriving DecidableEq, Repr

structure Write where
  stream : Stream
  text : String
deriving DecidableEq, Repr

inductive StreamError
  | invalidText
  | writeRefused
  | flushRefused
deriving DecidableEq, Repr

def StreamError.message : StreamError → String
  | invalidText => "I/O error: stream did not contain valid UTF-8"
  | writeRefused => "I/O error: write refused"
  | flushRefused => "I/O error: flush refused"

/-- What fails in a session: every write to a stream, or one flush, counted from one. -/
structure Faults where
  output : Bool
  errors : Bool
  flush : Option Nat
deriving DecidableEq, Repr

def Faults.none : Faults := ⟨false, false, Option.none⟩

def Faults.refuses (faults : Faults) : Stream → Bool
  | .output => faults.output
  | .errors => faults.errors

def failureText (message : String) : String := s!"Error: {message}\n"

/-- Cuts bytes into lines. A line ends after its line feed; the last may lack one. -/
def cutLines (bytes : List UInt8) : List (List UInt8) :=
  bytes.foldr (fun b lines =>
    if b = 10 then [b] :: lines
    else
      match lines with
      | [] => [[b]]
      | line :: rest => (b :: line) :: rest) []

def decode (bytes : List UInt8) : Option String := String.fromUTF8? ⟨bytes.toArray⟩

/-- What a session does with a line that it has read: it ends, or it goes on, and may write before
that. -/
inductive Step
  | ends (failure : Option StreamError)
  | goesOn (written : Option Write)
deriving DecidableEq, Repr

/-- White space around a line does not count. -/
def step (verbose : Bool) (line : List UInt8) : Step :=
  match decode line with
  | none => .ends (some .invalidText)
  | some text =>
    let text := Text.trim text
    if text = exitCommand then .ends none
    else if text = "" then .goesOn none
    else
      match answer verbose text with
      | .ok result => .goesOn (some ⟨.output, result ++ "\n"⟩)
      | .error e => .goesOn (some ⟨.errors, failureText e.message⟩)

/-- What happened in a session, in order; how many bytes were read; and what failed. -/
structure Session where
  writes : List Write
  consumed : Nat
  failure : Option StreamError
deriving DecidableEq, Repr

namespace Session

def ended (failure : Option StreamError) : Session := ⟨[], 0, failure⟩

/-- A session that writes before it goes on. -/
def write (faults : Faults) (w : Write) (rest : Session) : Session :=
  if faults.refuses w.stream then ended (some .writeRefused)
  else { rest with writes := w :: rest.writes }

def flush (faults : Faults) (count : Nat) (rest : Session) : Session :=
  if faults.flush = some count then ended (some .flushRefused) else rest

def read (line : List UInt8) (rest : Session) : Session :=
  { rest with consumed := line.length + rest.consumed }

/-- The rounds of a session over the lines that are left, after `asked` prompts. -/
def rounds (faults : Faults) (verbose : Bool) (asked : Nat) : List (List UInt8) → Session
  | [] => write faults ⟨.output, promptText⟩ (flush faults (asked + 1) (ended none))
  | line :: lines =>
    write faults ⟨.output, promptText⟩ <| flush faults (asked + 1) <| read line <|
      match step verbose line with
      | .ends failure => ended failure
      | .goesOn none => rounds faults verbose (asked + 1) lines
      | .goesOn (some w) => write faults w (rounds faults verbose (asked + 1) lines)

def run (faults : Faults) (verbose : Bool) (input : List UInt8) : Session :=
  write faults ⟨.output, banner ++ "\n"⟩ (rounds faults verbose 0 (cutLines input))

def textOf (session : Session) (stream : Stream) : String :=
  String.join ((session.writes.filter (·.stream = stream)).map Write.text)

/-- What is written, with neighbouring writes to one stream run together. -/
def stretches (writes : List Write) : List Write :=
  writes.foldr (fun w later =>
    match later with
    | [] => [w]
    | next :: rest =>
      if w.stream = next.stream then ⟨w.stream, w.text ++ next.text⟩ :: rest
      else w :: later) []

end Session

end Calculator
