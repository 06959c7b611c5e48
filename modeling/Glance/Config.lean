import Glance.Disk
import Glance.Number.Decimal
import Glance.Toml.Parser

/-!
# Limits

How large files may be to be opened, and up to which size text gets colours. The limits come from a
settings file that names only what it wants to change.
-/

namespace Glance

/-- When files are refused. -/
structure FileLimits where
  maxFileBytes : Nat
  maxTextureBytes : Nat
  deriving DecidableEq, Repr

/-- When text is shown without colours or line numbers. -/
structure TextLimits where
  /-- Longer texts have no colours. -/
  maxColoredChars : Nat
  /-- Texts of this many bytes have neither colours nor line numbers. -/
  largeBytes : Nat
  /-- Texts of this many lines neither. -/
  largeLines : Nat
  deriving DecidableEq, Repr

structure Config where
  files : FileLimits
  text : TextLimits
  deriving DecidableEq, Repr

/-- Why limits could not be read or written. -/
inductive ConfigError where
  | disk (cause : DiskError)
  | notText
  | malformed
  /-- A limit is larger than a settings file can hold. -/
  | tooLarge
  deriving DecidableEq, Repr

def ConfigError.message : ConfigError → String
  | .disk cause => "IO error: " ++ cause.message
  | .notText => "IO error: stream did not contain valid UTF-8"
  | .malformed => "Parse error: not a settings file"
  | .tooLarge => "Serialize error: number out of range"

namespace Config

def initial : Config where
  files := { maxFileBytes := 10000000, maxTextureBytes := 128 * 1024 * 1024 }
  text := { maxColoredChars := 200000, largeBytes := 500000, largeLines := 50000 }

/-! ## Reading -/

/-- A limit that need not be there. -/
def limit (missing : Nat) : Option Toml → Option Nat
  | none => some missing
  | some value => value.asNat?

def filesOfToml? (value : Toml) : Option FileLimits :=
  match value.fields? ["max_file_size_bytes", "max_image_texture_bytes"] with
  | some [file, texture] => do
    return {
      maxFileBytes := ← limit initial.files.maxFileBytes file
      maxTextureBytes := ← limit initial.files.maxTextureBytes texture }
  | _ => none

def textOfToml? (value : Toml) : Option TextLimits :=
  match value.fields? ["max_highlight_chars", "large_text_bytes", "large_text_lines"] with
  | some [chars, bytes, lines] => do
    return {
      maxColoredChars := ← limit initial.text.maxColoredChars chars
      largeBytes := ← limit initial.text.largeBytes bytes
      largeLines := ← limit initial.text.largeLines lines }
  | _ => none

def ofToml? (value : Toml) : Option Config :=
  match value.fields? ["files", "highlight"] with
  | some [files, text] => do
    return {
      files := ← files.elim (some initial.files) filesOfToml?
      text := ← text.elim (some initial.text) textOfToml? }
  | _ => none

/-- The limits that the bytes of a settings file name. -/
def ofBytes (bytes : List UInt8) : Except ConfigError Config :=
  match Text.decode? bytes with
  | none => .error .notText
  | some text =>
    match (Toml.parse text).bind ofToml? with
    | none => .error .malformed
    | some config => .ok config

/-- Reads a settings file. -/
def load (d : Disk) (p : Path) : Except ConfigError Config :=
  match d.read p with
  | .error cause => .error (.disk cause)
  | .ok bytes => ofBytes bytes

/-- The limits of a settings file, or the usual ones where there is no readable one. -/
def loadOrInitial (d : Disk) (p : Path) : Config :=
  if d.contains p then (load d p).toOption.getD initial else initial

/-! ## Writing -/

/-- The largest number that a settings file can hold. -/
def maxStored : Nat := 0x7FFFFFFFFFFFFFFF

/-- One line with a limit. -/
def writeLimit (name : String) (n : Nat) : List Char :=
  name.toList ++ " = ".toList ++ Number.digits n ++ ['\n']

/-- The text of a settings file that names all limits. -/
def write (c : Config) : List Char :=
  "[files]\n".toList ++
  writeLimit "max_file_size_bytes" c.files.maxFileBytes ++
  writeLimit "max_image_texture_bytes" c.files.maxTextureBytes ++
  "\n[highlight]\n".toList ++
  writeLimit "max_highlight_chars" c.text.maxColoredChars ++
  writeLimit "large_text_bytes" c.text.largeBytes ++
  writeLimit "large_text_lines" c.text.largeLines

/-- Every limit can be stored. -/
def isStorable (c : Config) : Bool :=
  [c.files.maxFileBytes, c.files.maxTextureBytes, c.text.maxColoredChars, c.text.largeBytes,
    c.text.largeLines].all (· ≤ maxStored)

/-- Writes a settings file in an existing folder. -/
def store (c : Config) (d : Disk) (p : Path) : Except ConfigError Unit × Disk :=
  if c.isStorable then
    match d.write p (Text.utf8 c.write) with
    | .error cause => (.error (.disk cause), d)
    | .ok written => (.ok (), written)
  else (.error .tooLarge, d)

/-- Writes a settings file and makes the folder for it first. -/
def save (c : Config) (d : Disk) (p : Path) : Except ConfigError Unit × Disk :=
  match p.parent with
  | none => c.store d p
  | some folder =>
    match d.makeFolders folder with
    | (.ok (), made) => c.store made p
    | (.error cause, made) => (.error (.disk cause), made)

end Config

end Glance
