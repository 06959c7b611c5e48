import Glance.CommandLine.Options
import Glance.Navigator
import Glance.Path
import Glance.Theme

/-!
# The command line

What the program is asked to do. Every command has its own options, and some options go with all of
them, in front of the command or behind it.
-/

namespace Glance

/-- How a file is printed. -/
structure RenderRequest where
  file : Path
  /-- The language to read the file as. -/
  lang : Option Language
  query : Option String
  /-- The number of the match to emphasize. -/
  current : Option Nat
  noLineNumbers : Bool
  /-- A whole page instead of its lines. -/
  standalone : Bool
  deriving DecidableEq, Repr

/-- The preferences to change. -/
structure PreferenceRequest where
  dark : Bool
  wrap : Bool
  lineNumbers : Bool
  fit : Bool
  theme : Option Theme
  deriving DecidableEq, Repr

inductive Command where
  | render (request : RenderRequest)
  /-- Prints a file beside the given one. -/
  | next (file : Path) (dir : Direction)
  | find (file : Path) (query : String) (json : Bool)
  /-- Lets the user pick a file and prints it. -/
  | pick
  | listRecents
  | reopen (slot : Nat)
  | clearRecents
  | preferences (request : PreferenceRequest)
  | themes
  | copyPath (file : Path)
  | reveal (file : Path)
  deriving DecidableEq, Repr

/-- A command with the options that go with all commands. -/
structure Invocation where
  command : Command
  /-- The settings file to read, instead of the usual one. -/
  config : Option Path
  /-- Nothing is remembered. -/
  ephemeral : Bool
  deriving DecidableEq, Repr

namespace CommandLine

/-! ## Values -/

/-- A path, which is never empty. -/
def path? (word : String) : Option Path :=
  if word.isEmpty then none else some ⟨word⟩

/-- A number of 64 bits. -/
def number? (word : String) : Option Nat :=
  let digits := match word.toList with
    | '+' :: rest => rest
    | text => text
  if digits.isEmpty || !digits.all Char.isDigit then none
  else
    let n := digits.foldl (fun n c => 10 * n + (c.toNat - '0'.toNat)) 0
    if n < UInt64.size then some n else none

/-- Reads the value of an option that need not be given. The outer result is nothing when the value
is no good. -/
def optional {α : Type} (r : Reading) (name : String) (read : String → Option α) :
    Option (Option α) :=
  match r.value? name with
  | none => some none
  | some word => (read word).map some

/-! ## Commands -/

def flag (name : String) : Opt := ⟨name, none, .nothing⟩

/-- The options that go with all commands. -/
def commonOptions : List Opt :=
  [⟨"config", some 'c', .value⟩, flag "ephemeral", ⟨"verbose", some 'v', .repetition⟩]

/-- The options of a command by its name; nothing when there is no such command. -/
def ownOptions? : String → Option (List Opt)
  | "render" => some
      [⟨"lang", some 'l', .value⟩, ⟨"find", some 'f', .value⟩, ⟨"current", none, .value⟩,
        flag "no-line-numbers", flag "standalone"]
  | "next" => some [⟨"previous", some 'p', .nothing⟩]
  | "find" => some [flag "json"]
  | "prefs" => some
      [flag "dark", flag "wrap", flag "line-numbers", flag "fit", ⟨"theme", none, .value⟩]
  | "open" | "recent" | "recents-clear" | "themes" | "copy-path" | "reveal" => some []
  | _ => none

def language? (name : String) : Option Language :=
  (Language.ofName name).toOption

def theme? (name : String) : Option Theme :=
  (Theme.ofName name).toOption

def renderRequest? (r : Reading) (file : String) : Option RenderRequest := do
  let file ← path? file
  let lang ← optional r "lang" language?
  let current ← optional r "current" number?
  let query := r.value? "find"
  if current.isSome && query.isNone then none
  return {
    file := file
    lang := lang
    query := query
    current := current
    noLineNumbers := r.has "no-line-numbers"
    standalone := r.has "standalone" }

def preferenceRequest? (r : Reading) : Option PreferenceRequest := do
  let theme ← optional r "theme" theme?
  return {
    dark := r.has "dark"
    wrap := r.has "wrap"
    lineNumbers := r.has "line-numbers"
    fit := r.has "fit"
    theme := theme }

/-- The command with a given name, its options and words read. -/
def command? (name : String) (r : Reading) : Option Command :=
  match name, r.words.reverse with
  | "render", [file] => (renderRequest? r file).map .render
  | "next", [file] =>
    (path? file).map (.next · (if r.has "previous" then .backward else .forward))
  | "find", [file, query] => (path? file).map (.find · query (r.has "json"))
  | "open", [] => some .pick
  | "recent", [] => some .listRecents
  | "recent", [slot] => (number? slot).map .reopen
  | "recents-clear", [] => some .clearRecents
  | "prefs", [] => (preferenceRequest? r).map .preferences
  | "themes", [] => some .themes
  | "copy-path", [file] => (path? file).map .copyPath
  | "reveal", [file] => (path? file).map .reveal
  | _, _ => none

/-- What a command line asks for; nothing when it is malformed. Of two settings files the one given
behind the command counts. -/
def parse (words : List String) : Option Invocation := do
  let (before, rest) ← leading commonOptions words.length .empty words
  match rest with
  | [] => none
  | name :: rest =>
    let own ← ownOptions? name
    let behind ← everything (own ++ commonOptions) rest.length .empty rest
    let command ← command? name behind
    let outer ← optional before "config" path?
    let inner ← optional behind "config" path?
    return {
      command := command
      config := inner.or outer
      ephemeral := before.has "ephemeral" || behind.has "ephemeral" }

end CommandLine

end Glance
