/-!
# Options on a command line

A command line is a list of words. Those that begin with a hyphen are options: `--name`, with a
value as `--name value` or `--name=value`, or letters behind one hyphen, of which the last may have
a value, as `-n value`, `-nvalue` or `-n=value`. A single hyphen is no option, and behind `--`
nothing is. A value that is a word of its own does not begin with a hyphen. An option may be given
once, unless it is one that is counted.
-/

namespace Glance.CommandLine

/-- What an option wants. -/
inductive Wants where
  | nothing
  /-- The option may be repeated, and has no value. -/
  | repetition
  | value
  deriving DecidableEq, Repr

structure Opt where
  name : String
  letter : Option Char
  wants : Wants
  deriving DecidableEq, Repr

/-- What has been read of a command line. -/
structure Reading where
  /-- The options given, by name, with their values. -/
  given : List (String × String)
  /-- The other words, last first. -/
  words : List String
  deriving DecidableEq, Repr

namespace Reading

def empty : Reading := ⟨[], []⟩

/-- Notes an option. -/
def give (r : Reading) (opt : Opt) (value : String) : Option Reading :=
  if opt.wants ≠ .repetition ∧ r.given.any (·.1 = opt.name) then none
  else some { r with given := (opt.name, value) :: r.given }

/-- The option was given. -/
def has (r : Reading) (name : String) : Bool :=
  r.given.any (·.1 = name)

/-- The value of an option. -/
def value? (r : Reading) (name : String) : Option String :=
  (r.given.find? (·.1 = name)).map (·.2)

end Reading

/-- A word that can only be an option. -/
def isOption (word : String) : Bool :=
  match word.toList with
  | '-' :: _ :: _ => true
  | _ => false

/-- Notes an option whose value is the next word. -/
def giveNext (r : Reading) (opt : Opt) : List String → Option (Reading × List String)
  | [] => none
  | word :: rest => if isOption word then none else (r.give opt word).map (·, rest)

/-- Reads an option by its name. `text` is what follows the two hyphens. -/
def longOption (opts : List Opt) (r : Reading) (text : List Char) (rest : List String) :
    Option (Reading × List String) :=
  let name := String.ofList (text.takeWhile (· != '='))
  match opts.find? (·.name = name), text.dropWhile (· != '=') with
  | none, _ => none
  | some opt, [] =>
    if opt.wants = .value then giveNext r opt rest else (r.give opt "").map (·, rest)
  | some opt, _ :: value =>
    if opt.wants = .value then (r.give opt (String.ofList value)).map (·, rest) else none

/-- A value right behind its letter. -/
def attached (text : List Char) : String :=
  match text with
  | '=' :: value => String.ofList value
  | value => String.ofList value

/-- Reads options by their letters. -/
def letters (opts : List Opt) (r : Reading) (rest : List String) :
    List Char → Option (Reading × List String)
  | [] => some (r, rest)
  | c :: more =>
    match opts.find? (·.letter = some c) with
    | none => none
    | some opt =>
      if opt.wants = .value then
        match more with
        | [] => giveNext r opt rest
        | _ => (r.give opt (attached more)).map (·, rest)
      else
        match r.give opt "" with
        | some r => letters opts r rest more
        | none => none

/-- Reads one option. -/
def option (opts : List Opt) (r : Reading) (word : String) (rest : List String) :
    Option (Reading × List String) :=
  match word.toList with
  | '-' :: '-' :: text => longOption opts r text rest
  | '-' :: text => letters opts r rest text
  | _ => none

/-- Reads options up to the first other word, of at most `fuel` words. -/
def leading (opts : List Opt) : (fuel : Nat) → Reading → List String →
    Option (Reading × List String)
  | _, r, [] => some (r, [])
  | 0, r, words => some (r, words)
  | fuel + 1, r, word :: rest =>
    if isOption word then
      match option opts r word rest with
      | some (r, rest) => leading opts fuel r rest
      | none => none
    else some (r, word :: rest)

/-- Reads all options and words, of at most `fuel` words. -/
def everything (opts : List Opt) : (fuel : Nat) → Reading → List String → Option Reading
  | _, r, [] => some r
  | 0, r, _ => some r
  | fuel + 1, r, word :: rest =>
    if word = "--" then some { r with words := rest.reverse ++ r.words }
    else if isOption word then
      match option opts r word rest with
      | some (r, rest) => everything opts fuel r rest
      | none => none
    else everything opts fuel { r with words := word :: r.words } rest

end Glance.CommandLine
