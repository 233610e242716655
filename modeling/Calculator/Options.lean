/-!
The command line. Options have a letter after one dash and a word after two; letters may stand
together, and the value of an option may be attached to it or be the next argument. Arguments are
read from left to right, and the first problem decides. A value that is a separate argument is
taken up only when the next option is met or the arguments end, so a problem with it gives way to
an argument that is not understood.
-/

namespace Calculator

structure Options where
  expression : Option String
  verbose : Bool
  listFunctions : Bool
deriving DecidableEq, Repr

inductive Usage
  | help
  | version
  | unknownArgument
  | argumentConflict
  | invalidValue
  | tooManyValues
deriving DecidableEq, Repr

def Usage.exitCode : Usage → Nat
  | help | version => 0
  | _ => 2

inductive Flag
  | verbose
  | listFunctions
  | help
  | version
deriving DecidableEq, Repr

inductive Switch
  | expression
  | flag (f : Flag)
deriving DecidableEq, Repr

namespace Switch

def ofLetter? : Char → Option Switch
  | 'e' => some .expression
  | 'v' => some (.flag .verbose)
  | 'l' => some (.flag .listFunctions)
  | 'h' => some (.flag .help)
  | 'V' => some (.flag .version)
  | _ => none

def ofWord? (word : List Char) : Option Switch :=
  [("expression", expression), ("verbose", flag .verbose), ("list-functions", flag .listFunctions),
   ("help", flag .help), ("version", flag .version)].lookup (String.ofList word)

end Switch

/-- What the arguments read so far leave open: nothing, the value of the last option, or that an
option was given twice. -/
inductive Pending
  | nothing
  | awaited
  | repeated
deriving DecidableEq, Repr

namespace Options

def empty : Options := ⟨none, false, false⟩

/-- Settles what is open, so that a known option can be taken. -/
def settle (o : Options) : Pending → Except Usage Options
  | .nothing => .ok o
  | .awaited => .error .invalidValue
  | .repeated => .error .argumentConflict

def take (o : Options) : Flag → Except Usage Options
  | .verbose => if o.verbose then .error .argumentConflict else .ok { o with verbose := true }
  | .listFunctions =>
    if o.listFunctions then .error .argumentConflict else .ok { o with listFunctions := true }
  | .help => .error .help
  | .version => .error .version

def takeExpression (o : Options) (value : List Char) : Except Usage Options :=
  if o.expression.isSome then .error .argumentConflict
  else .ok { o with expression := some (String.ofList value) }

def attached : List Char → List Char
  | '=' :: value => value
  | value => value

/-- Reads letters that stand together. The letter of an expression takes the rest for its value. -/
def letters (o : Options) (p : Pending) : List Char → Except Usage (Options × Pending)
  | [] => .ok (o, p)
  | c :: cs =>
    match Switch.ofLetter? c with
    | none => .error .unknownArgument
    | some .expression => do
      let o ← o.settle p
      if cs = [] then return (o, .awaited) else return (← o.takeExpression (attached cs), .nothing)
    | some (.flag f) => do
      let o ← o.settle p
      letters (← o.take f) .nothing cs

def word (o : Options) (p : Pending) (cs : List Char) : Except Usage (Options × Pending) :=
  let (word, value) := cs.span (· ≠ '=')
  match Switch.ofWord? word, value with
  | none, _ => .error .unknownArgument
  | some .expression, [] => do return (← o.settle p, .awaited)
  | some .expression, _ :: value => do
    let o ← o.settle p
    return (← o.takeExpression value, .nothing)
  | some (.flag _), _ :: _ => .error .tooManyValues
  | some (.flag f), [] => do
    let o ← o.settle p
    return (← o.take f, .nothing)

/-- Reads the arguments that are left. A lone dash and the empty argument are values, and so is
whatever does not start with a dash; after two dashes there are only values. -/
def readFrom (o : Options) (p : Pending) : List String → Except Usage Options
  | [] => o.settle p
  | argument :: rest =>
    match argument.toList with
    | ['-', '-'] => if rest = [] then o.settle p else .error .unknownArgument
    | '-' :: '-' :: cs => do
      let (o, p) ← o.word p cs
      o.readFrom p rest
    | '-' :: c :: cs => do
      let (o, p) ← o.letters p (c :: cs)
      o.readFrom p rest
    | _ =>
      if p ≠ .awaited then .error .unknownArgument
      else if o.expression.isSome then o.readFrom .repeated rest
      else readFrom { o with expression := some argument } .nothing rest

def ofArguments (arguments : List String) : Except Usage Options :=
  empty.readFrom .nothing arguments

end Options

end Calculator
