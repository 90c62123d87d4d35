/-! Command line options. Every option takes one value and may be given once; no word may stand by
itself. -/

namespace TileWorld.CommandLine

structure OptionSpec where
  long : String
  short : Option Char
  /-- Whether a text is a value of the option. -/
  accepts : String → Bool
  /-- What the option is for. -/
  about : String
  /-- The value of an option that is not given. -/
  default : Option String

def OptionSpec.form (spec : OptionSpec) : String :=
  let placeholder := spec.long.toList.map fun c => if c = '-' then '_' else c.toUpper
  "--" ++ spec.long ++ " <" ++ .ofList placeholder ++ ">"

/-- Why the words are not read to their end. An option is told by its form. -/
inductive Stop where
  | help
  | version
  | unexpected (word : String)
  | missing (option : String)
  | repeated (option : String)
  | invalid (option value : String)
  deriving DecidableEq, Repr

/-- The values given so far, by the long name of their option. -/
abbrev Given := List (String × String)

/-- Whether a word can be the value of the option before it. -/
def isValue (word : String) : Bool :=
  match word.toList with
  | ['-'] => true
  | '-' :: _ => false
  | _ => true

def give (given : Given) (spec : OptionSpec) (value : String) : Except Stop Given :=
  if (given.lookup spec.long).isSome then .error (.repeated spec.form)
  else if spec.accepts value then .ok ((spec.long, value) :: given)
  else .error (.invalid spec.form value)

/-- The name and, behind the first equals sign, the value of a long option. -/
def splitLong (cs : List Char) : String × Option String :=
  let name := String.ofList (cs.takeWhile (· != '='))
  match cs.dropWhile (· != '=') with
  | [] => (name, none)
  | _ :: value => (name, some (.ofList value))

/-- A value directly behind a one-letter option, an equals sign between them left out. -/
def attachedShort (cs : List Char) : Option String :=
  match cs with
  | [] => none
  | '=' :: value => some (.ofList value)
  | value => some (.ofList value)

/-- The option that a word names and the value that the word holds, if any. -/
def named (specs : List OptionSpec) (word : String) : Except Stop (OptionSpec × Option String) :=
  match word.toList with
  | '-' :: '-' :: cs =>
    let (name, value) := splitLong cs
    match specs.find? fun spec => spec.long == name, value with
    | some spec, value => .ok (spec, value)
    | none, none =>
      if name = "help" then .error .help
      else if name = "version" then .error .version
      else .error (.unexpected word)
    | none, some _ => .error (.unexpected word)
  | '-' :: c :: cs =>
    match specs.find? fun spec => spec.short == some c with
    | some spec => .ok (spec, attachedShort cs)
    | none =>
      if c = 'h' then .error .help
      else if c = 'V' then .error .version
      else .error (.unexpected word)
  | _ => .error (.unexpected word)

/-- Reads words from the left; the option before them may wait for its value. The first fault
counts. -/
def parseFrom (specs : List OptionSpec) :
    Option OptionSpec → Given → List String → Except Stop Given
  | none, given, [] => .ok given
  | some spec, _, [] => .error (.missing spec.form)
  | some spec, given, word :: rest =>
    if isValue word then
      match give given spec word with
      | .ok given => parseFrom specs none given rest
      | .error stop => .error stop
    else .error (.missing spec.form)
  | none, given, word :: rest =>
    if word = "--" then
      match rest with
      | [] => .ok given
      | word :: _ => .error (.unexpected word)
    else
      match named specs word with
      | .error stop => .error stop
      | .ok (spec, none) =>
        if (given.lookup spec.long).isSome then .error (.repeated spec.form)
        else parseFrom specs (some spec) given rest
      | .ok (spec, some value) =>
        match give given spec value with
        | .ok given => parseFrom specs none given rest
        | .error stop => .error stop

def parse (specs : List OptionSpec) (words : List String) : Except Stop Given :=
  parseFrom specs none [] words

end TileWorld.CommandLine
