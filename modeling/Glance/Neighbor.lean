import Glance.Navigator
import Glance.Path

/-!
# Neighbours in a folder

The file before or behind another one, by name. Files without a name come before all others, and
both ends of the folder are joined. A file of the same name is no neighbour.
-/

namespace Glance.Neighbor

/-- The order of file names by their bytes; no name comes first. -/
def nameLt : Option String → Option String → Bool
  | none, some _ => true
  | some a, some b => decide (a < b)
  | _, none => false

/-- Paths by their names, equal names in the order given. -/
def sortByName (paths : List Path) : List Path :=
  paths.mergeSort fun p q => !nameLt q.fileName p.fileName

/-- The neighbour of `current` among other paths that are sorted by name. -/
def pick (sorted : List Path) (name : String) : Direction → Option Path
  | .forward => (sorted.find? fun p => nameLt (some name) p.fileName).or sorted.head?
  | .backward =>
    (sorted.reverse.find? fun p => nameLt p.fileName (some name)).or sorted.getLast?

end Glance.Neighbor

namespace Glance

/-- The neighbour of a path among the files of its folder, in which it need not be itself. -/
def neighbor (siblings : List Path) (current : Path) (dir : Direction) : Option Path :=
  match current.fileName with
  | none => none
  | some name =>
    let others := siblings.filter fun p => p.fileName ≠ some name
    Neighbor.pick (Neighbor.sortByName others) name dir

end Glance
