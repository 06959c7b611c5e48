/-!
# Paths

A path is a text whose names are separated by `/`. Repeated separators, a separator at the end and
the name `.` behind the first place mean nothing: `a//b/.` and `a/b` have the same components. The
functions here read a path; none of them asks whether it exists.
-/

namespace Glance

structure Path where
  text : String
  deriving DecidableEq, Repr

namespace Path

/-! ## Components -/

inductive Component where
  | root
  | here
  | up
  | name (text : List Char)
  deriving DecidableEq, Repr

/-- Puts a character in front of a text that is already cut at its separators. -/
def consSegment (c : Char) (split : List Char × List (List Char)) :
    List Char × List (List Char) :=
  if c = '/' then ([], split.1 :: split.2) else (c :: split.1, split.2)

/-- The stretches between separators, empty ones included. -/
def segments (p : Path) : List (List Char) :=
  let split := p.text.toList.foldr consSegment ([], [])
  split.1 :: split.2

def isAbsolute (p : Path) : Bool :=
  p.text.toList.head? == some '/'

/-- What segment number `i` of a path means. -/
def component? (absolute : Bool) (i : Nat) (segment : List Char) : Option Component :=
  if segment = [] then (if i = 0 && absolute then some .root else none)
  else if segment = ['.'] then (if i = 0 then some .here else none)
  else if segment = ['.', '.'] then some .up
  else some (.name segment)

/-- The components, each with the number of its segment. -/
def located (p : Path) : List (Nat × Component) :=
  let absolute := p.isAbsolute
  p.segments.zipIdx.filterMap fun (segment, i) => (component? absolute i segment).map (i, ·)

/-! ## Parts -/

/-- The last component, if it is a name. -/
def fileName (p : Path) : Option String :=
  match p.located.getLast? with
  | some (_, .name text) => some (String.ofList text)
  | _ => none

/-- The segments joined by separators. -/
def join (segments : List (List Char)) : List Char :=
  (segments.intersperse ['/']).flatten

/-- The path up to its last component, the separators behind it removed. A root and an empty path
have no parent; a lone name has the empty path. -/
def parent (p : Path) : Option Path :=
  match p.located.reverse with
  | [] => none
  | (_, .root) :: _ => none
  | [_] => some ⟨""⟩
  | _ :: (_, .root) :: _ => some ⟨"/"⟩
  | _ :: (i, _) :: _ => some ⟨String.ofList (join (p.segments.take (i + 1)))⟩

/-- A name cut at its last dot. A dot in the first place belongs to the name. -/
def cutName (name : List Char) : List Char × Option (List Char) :=
  let reversed := name.reverse
  let extension := (reversed.takeWhile (· != '.')).reverse
  match (reversed.dropWhile (· != '.')).drop 1 with
  | [] => (name, none)
  | stem => (stem.reverse, some extension)

/-- The part of the file name behind its last dot. -/
def extension (p : Path) : Option String :=
  p.fileName.bind fun name => (cutName name.toList).2.map String.ofList

/-- The path with another extension in place of the last one. A path without a file name stays as
it is, and so does the `..` that is left of a name like `..a` when its extension is taken off. -/
def withExtension (p : Path) (extension : String) : Path :=
  match p.located.getLast? with
  | some (i, .name text) =>
    let (stem, old) := cutName text
    let name :=
      if stem = ['.'] ∧ old ≠ some [] ∧ i + 1 = p.segments.length then ['.', '.']
      else stem ++ '.' :: extension.toList
    ⟨String.ofList (join (p.segments.take i ++ [name]))⟩
  | _ => p

/-- A name, or a relative path, below a folder. -/
def child (folder : Path) (name : String) : Path :=
  if (Path.mk name).isAbsolute then ⟨name⟩
  else if folder.text.isEmpty || folder.text.toList.getLast? == some '/' then ⟨folder.text ++ name⟩
  else ⟨folder.text ++ "/" ++ name⟩

/-- The folder that holds a path; a bare name lies in the current folder. -/
def folder (p : Path) : Path :=
  match p.parent with
  | some dir => if dir.text.isEmpty then ⟨"."⟩ else dir
  | none => ⟨"."⟩

end Path

end Glance
