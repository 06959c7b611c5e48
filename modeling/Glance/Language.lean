import Glance.Path

/-!
# Languages

The languages whose words and comments get colours, with their reserved words and comment signs.
-/

namespace Glance

inductive Language where
  /-- No rules of its own: only words, strings and brackets are coloured. -/
  | plain
  | javascript
  | python
  | rust
  | toml
  deriving DecidableEq, Repr

/-- A name that no language or theme has. -/
inductive NameError where
  | unknownLanguage (name : String)
  | unknownTheme (name : String)
  deriving DecidableEq, Repr

def NameError.message : NameError → String
  | .unknownLanguage name => "Unknown language: " ++ name
  | .unknownTheme name => "Unknown theme: " ++ name

namespace Language

/-- Every language, in display order. -/
def all : List Language := [.plain, .javascript, .python, .rust, .toml]

def shortName : Language → String
  | .plain => "none"
  | .javascript => "js"
  | .python => "py"
  | .rust => "rs"
  | .toml => "toml"

/-- The language a file extension stands for, in any letter case. -/
def ofExtension (extension : String) : Language :=
  match extension.toLower with
  | "js" => .javascript
  | "py" => .python
  | "rs" => .rust
  | "toml" => .toml
  | _ => .plain

/-- The language of a file, by its extension. -/
def ofPath (p : Path) : Language :=
  (p.extension.map ofExtension).getD .plain

/-- The language with a given short or long name, in any letter case. -/
def ofName (name : String) : Except NameError Language :=
  match name.toLower with
  | "none" | "plain" | "text" | "txt" => .ok .plain
  | "js" | "javascript" => .ok .javascript
  | "py" | "python" => .ok .python
  | "rs" | "rust" => .ok .rust
  | "toml" => .ok .toml
  | _ => .error (.unknownLanguage name)

def rustKeywords : List String :=
  ["as", "async", "await", "break", "const", "continue", "crate", "dyn", "else", "enum", "extern",
   "false", "fn", "for", "if", "impl", "in", "let", "loop", "match", "mod", "move", "mut", "pub",
   "ref", "return", "self", "Self", "static", "struct", "super", "trait", "true", "type", "unsafe",
   "use", "where", "while", "union", "box", "try", "yield", "macro", "macro_rules"]

def pythonKeywords : List String :=
  ["False", "None", "True", "and", "as", "assert", "async", "await", "break", "class", "continue",
   "def", "del", "elif", "else", "except", "finally", "for", "from", "global", "if", "import",
   "in", "is", "lambda", "nonlocal", "not", "or", "pass", "raise", "return", "try", "while",
   "with", "yield", "match", "case"]

def javascriptKeywords : List String :=
  ["function", "const", "let", "var", "class", "extends", "super", "import", "export", "default",
   "return", "if", "else", "for", "while", "do", "switch", "case", "break", "continue", "try",
   "catch", "finally", "throw", "new", "this", "in", "of", "await", "async", "yield", "typeof",
   "instanceof", "void", "delete", "with"]

/-- The reserved words; letter case counts. -/
def keywords : Language → List String
  | .rust => rustKeywords
  | .python => pythonKeywords
  | .javascript => javascriptKeywords
  | .toml | .plain => []

def isKeyword (lang : Language) (word : List Char) : Bool :=
  lang.keywords.contains (String.ofList word)

/-- The sign that turns the rest of a line into a comment. -/
def lineComment : Language → Option (List Char)
  | .javascript | .rust => some ['/', '/']
  | .python | .toml => some ['#']
  | .plain => none

/-- Comments between `/*` and `*/` are known. They never go on to the next line. -/
def hasBlockComments : Language → Bool
  | .javascript => true
  | _ => false

end Language

end Glance
