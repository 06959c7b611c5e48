import Glance.Toml.Quoted
import Glance.Toml.Scalar

/-!
# Reading settings files

A file is a sequence of lines: headers, keys with values, comments. Containers and dotted keys may
be nested only up to a limit. Nothing is read from a file with a mistake in it.
-/

namespace Glance.Toml

/-- Reads something off the front of a text. -/
abbrev Reader (α : Type) := List Char → Option (α × List Char)

/-- Containers in one another, and names in a dotted key. -/
def nestingLimit : Nat := 79

def skipBlank (text : List Char) : List Char :=
  text.dropWhile isBlank

/-- Passes a comment, if there is one. -/
def skipComment (text : List Char) : List Char :=
  match text with
  | '#' :: rest => rest.dropWhile isPrintable
  | _ => text

/-- Passes one line break. -/
def lineBreak? : List Char → Option (List Char)
  | '\n' :: rest => some rest
  | '\r' :: '\n' :: rest => some rest
  | _ => none

/-- Passes what may stand behind everything on a line: blanks, a comment, and the end of the line or
of the file. -/
def endLine (text : List Char) : Option (List Char) :=
  match skipComment (skipBlank text) with
  | [] => some []
  | rest => lineBreak? rest

/-- Passes blanks, comments and line breaks inside an array, at most `fuel` lines. -/
def skipLines : (fuel : Nat) → List Char → List Char
  | 0, text => text
  | fuel + 1, text =>
    match lineBreak? (skipComment (skipBlank text)) with
    | some rest => skipLines fuel rest
    | none => skipBlank text

/-! ## Keys -/

/-- Characters of a name without quotes. -/
def isBare (c : Char) : Bool :=
  c.isAlphanum || c == '-' || c == '_'

/-- One name. -/
def simpleKey : Reader String := fun text =>
  match text.takeWhile isBare with
  | [] => (shortText text).map fun (name, rest) => (String.ofList name, rest)
  | name => some (String.ofList name, text.dropWhile isBare)

/-- Names with dots between them, at most `fuel` of them. `seen` holds the names so far, last
first. -/
def dottedFrom (seen : List String) : (fuel : Nat) → Reader (List String)
  | 0, _ => none
  | fuel + 1, text =>
    match simpleKey (skipBlank text) with
    | none => none
    | some (name, rest) =>
      match skipBlank rest with
      | '.' :: rest => dottedFrom (name :: seen) fuel rest
      | rest => some (name :: seen, rest)

/-- A dotted key: its last name, the names in front of it, and what follows. -/
def key (text : List Char) : Option (List String × String × List Char) :=
  match dottedFrom [] nestingLimit text with
  | some (name :: path, rest) => some (path.reverse, name, rest)
  | _ => none

/-! ## Values -/

/-- A key and its value. -/
structure Binding where
  path : List String
  name : String
  value : Toml

def binding (value : Reader Toml) : Reader Binding := fun text =>
  match key text with
  | some (path, name, '=' :: rest) =>
    (value (skipBlank rest)).map fun (v, rest) => (⟨path, name, v⟩, rest)
  | _ => none

/-- The items of an array, the next of them still to come. Neither they nor the lines between two of
them are more than `fuel`. -/
def items (value : Reader Toml) (seen : List Toml) : (fuel : Nat) → Reader (List Toml)
  | 0, _ => none
  | fuel + 1, text =>
    match skipLines fuel text with
    | ']' :: rest => some (seen.reverse, rest)
    | text =>
      match value text with
      | none => none
      | some (v, rest) =>
        match skipLines fuel rest with
        | ']' :: rest => some ((v :: seen).reverse, rest)
        | ',' :: rest => items value (v :: seen) fuel rest
        | _ => none

/-- The bindings between braces, the first of them still to come, at most `fuel` of them. -/
def bindings (value : Reader Toml) (seen : Entries) : (fuel : Nat) → Reader Entries
  | 0, _ => none
  | fuel + 1, text =>
    match binding value text with
    | none => none
    | some (b, rest) =>
      match Entries.put b.path b.name b.value .own seen with
      | none => none
      | some entries =>
        match skipBlank rest with
        | '}' :: rest => some (entries, rest)
        | ',' :: rest => bindings value entries fuel rest
        | _ => none

/-- A value in which `depth` containers may be nested, in a text of at most `most` characters. -/
def value (most : Nat) : (depth : Nat) → Reader Toml
  | depth, text =>
    match text with
    | '"' :: _ | '\'' :: _ => (quoted text).map fun (_, rest) => (.str, rest)
    | '[' :: rest =>
      match depth with
      | 0 => none
      | depth + 1 => (items (value most depth) [] most rest).map fun (vs, rest) => (.array vs, rest)
    | '{' :: rest =>
      match depth with
      | 0 => none
      | depth + 1 =>
        match skipBlank rest with
        | '}' :: rest => some (.table .braces [], rest)
        | _ =>
          (bindings (value most depth) [] most rest).map fun (es, rest) => (.table .braces es, rest)
    | _ =>
      let (word, rest) := spanWord text
      (word? word).map (·, rest)

/-! ## Lines -/

/-- What the lines so far have built: the whole table, and the path of the last header. -/
structure Progress where
  root : Entries
  header : List String

/-- A header line behind its first bracket. -/
def header (p : Progress) (text : List Char) : Option (Progress × List Char) := do
  match text with
  | '[' :: rest =>
    match key rest with
    | some (path, name, ']' :: ']' :: rest) => do
      let rest ← endLine rest
      let root ← p.root.append path name
      return (⟨root, path ++ [name]⟩, rest)
    | _ => none
  | _ =>
    match key text with
    | some (path, name, ']' :: rest) => do
      let rest ← endLine rest
      let root ← p.root.define path name
      return (⟨root, path ++ [name]⟩, rest)
    | _ => none

/-- A line with a key and a value. -/
def setting (most : Nat) (p : Progress) (text : List Char) : Option (Progress × List Char) := do
  let (b, rest) ← binding (value most nestingLimit) text
  let rest ← endLine rest
  let root ← Entries.within .implied (Entries.put b.path b.name b.value) p.header .own p.root
  return (⟨root, p.header⟩, rest)

/-- One line that is not empty. -/
def line (most : Nat) (p : Progress) (text : List Char) : Option (Progress × List Char) :=
  match text with
  | '[' :: rest => header p rest
  | '#' :: _ | '\n' :: _ | '\r' :: _ => (endLine text).map (p, ·)
  | _ => setting most p text

/-- At most `fuel` lines of a text of at most `most` characters. -/
def lines (most : Nat) : (fuel : Nat) → Progress → List Char → Option Progress
  | 0, _, _ => none
  | fuel + 1, p, text =>
    match skipBlank text with
    | [] => some p
    | text =>
      match line most p text with
      | some (p, rest) => lines most fuel p rest
      | none => none

/-- Reads a whole file. A byte order mark in front of it is passed over. -/
def parse (text : List Char) : Option Toml :=
  let text := if text.head? = some '\uFEFF' then text.drop 1 else text
  (lines text.length (text.length + 1) ⟨[], []⟩ text).map fun p => .table .own p.root

end Glance.Toml
