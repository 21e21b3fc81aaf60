import BaseAnvil.Fs.PermissionJoin

/-!
# BaseAnvil.Fs.FileSystem

A file system with symbolic links, and how `CheatsConfig` checks a path against it
(`cheatcodes/src/config.rs`, `common/src/fs.rs`).

A place is the list of the names that lead to it from the root. Opening a path, or creating it,
follows the links on the way; how many are followed is limited, as the operating system does.
-/

namespace BaseAnvil.Fs

/-- What there is at a place. -/
inductive Entry
  | dir
  | file
  | link (target : Path)
deriving DecidableEq, Repr

/-- A file system as a table from places to what is there, with the limits that opening a path
respects. -/
structure FileSystem where
  entry : List String → Option Entry
  /-- How many links are followed before it is given up. -/
  maxLinks : Nat
  /-- Where relative paths begin. -/
  cwd : List String
  root_dir : entry [] = some .dir
  cwd_dir : entry cwd = some .dir
  /-- What there is, is in a directory. -/
  parent_dir : ∀ place name, entry (place ++ [name]) ≠ none → entry place = some .dir

/-- The place of a path that does not lead elsewhere. -/
def absolute (place : List String) : Path := .rootDir :: place.map .normal

namespace FileSystem

variable (fs : FileSystem)

/-- One path, from a directory on: the place it leads to and whether there is something. A name
that is missing may only be the last one. Links are left to `follow`. -/
def walkWith (follow : List String → Path → Option (List String × Bool)) :
    List String → Path → Option (List String × Bool)
  | place, [] => some (place, true)
  | _, .rootDir :: rest => walkWith follow [] rest
  | place, .curDir :: rest => walkWith follow place rest
  | place, .parentDir :: rest => walkWith follow place.dropLast rest
  | place, .normal name :: rest =>
    match fs.entry (place ++ [name]) with
    | none => if rest = [] then some (place ++ [name], false) else none
    | some .dir => walkWith follow (place ++ [name]) rest
    | some .file => if rest = [] then some (place ++ [name], true) else none
    | some (.link target) => follow place (target ++ rest)

/-- With a number of links that may still be followed. -/
def walk : Nat → List String → Path → Option (List String × Bool)
  | 0 => fs.walkWith fun _ _ => none
  | links + 1 => fs.walkWith (walk links)

/-- Where opening or creating the path leads. There is nothing at the empty path. -/
def resolve (path : Path) : Option (List String × Bool) :=
  if path = [] then none else fs.walk fs.maxLinks fs.cwd path

/-- Opening or creating the path reaches this place. -/
def Reaches (path : Path) (place : List String) : Prop :=
  ∃ present, fs.resolve path = some (place, present)

/-- `canonicalize`. -/
def canonicalize (path : Path) : Option Path :=
  match fs.resolve path with
  | some (place, true) => some (absolute place)
  | _ => none

/-- The file system as the permissions see it. -/
def resolver : Resolver where
  canonicalize := fs.canonicalize
  ne_nil path resolved h := by
    unfold canonicalize at h
    split at h
    · obtain rfl := Option.some.inj h
      simp [absolute]
    · cases h

end FileSystem

/-! ### The check -/

/-- `Path::join`. An empty path leaves a separator at the end. -/
def join (root path : Path) : Path :=
  if path.head? = some .rootDir ∨ root = [] then path
  else if path = [] then root ++ [.curDir]
  else root ++ path

def FsAccessKind.text : FsAccessKind → String
  | .read => "read"
  | .write => "write"

namespace CheatsConfig

variable (fs : FileSystem) (config : CheatsConfig)

end CheatsConfig

end BaseAnvil.Fs
