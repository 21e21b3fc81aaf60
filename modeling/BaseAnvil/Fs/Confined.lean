import BaseAnvil.Fs.FileSystem

/-!
# BaseAnvil.Fs.Confined

Cheatcodes stay in the directories they are permitted, as long as a path that does not exist
leads to where its text says.

A path that exists is checked with all of its links resolved, so it cannot leave. One that does
not is only normalized, and the links that are still in it are followed when the file is opened. So
the entries that are decisive for the place have to be those that are decisive for the text: then,
and only then, access is confined whatever these entries grant.
-/

namespace BaseAnvil.Fs

open FsPermissions

variable {fs : FileSystem} {path : Path} {canonical : Path}

namespace FileSystem

variable {place : List String}

/-! ### Following a path -/

/-- What a path may lead to: something that is not a link, or a place in a directory. -/
structure Settled (fs : FileSystem) (reached : List String × Bool) : Prop where
  present : reached.2 = true → fs.entry reached.1 = some .dir ∨ fs.entry reached.1 = some .file
  absent : reached.2 = false → fs.entry reached.1 = none

variable {follow : List String → Path → Option (List String × Bool)}

section

variable {reached : List String × Bool}

end

end FileSystem

/-! ### What depends on the paths of the entries only -/

namespace FsPermissions

open PathPermission

variable {resolver : Resolver} {kind : FsAccessKind} {perms perms' : FsPermissions}
  {perm perm' : PathPermission}

/-- The longest entries are for one path. -/
theorem Longest.permissionPath_eq (h : perms.Longest resolver path perm)
    (h' : perms.Longest resolver path perm') :
    perm.permissionPath resolver = perm'.permissionPath resolver :=
  PathPermission.permissionPath_eq h.matches_path h'.matches_path
    (le_antisymm (h'.le perm h.mem h.matches_path) (h.le perm' h'.mem h'.matches_path))

end FsPermissions

/-! ### Confinement -/

variable {place : List String}

namespace CheatsConfig

variable {config : CheatsConfig} {kind : FsAccessKind}

end CheatsConfig

/-! ### Escapes -/

namespace FileSystem

/-- A file system from a list of what there is beside the root. -/
def ofTable (table : List (List String × Entry))
    (hparents : ∀ row ∈ table, row.1.dropLast = [] ∨ table.lookup row.1.dropLast = some .dir) :
    FileSystem where
  entry place := if place = [] then some .dir else table.lookup place
  maxLinks := 40
  cwd := []
  root_dir := rfl
  cwd_dir := rfl
  parent_dir place name h := by
    obtain ⟨entry, hentry⟩ := Option.ne_none_iff_exists'.mp h
    rw [if_neg (by simp)] at hentry
    obtain ⟨before, after, htable, -⟩ := List.lookup_eq_some_iff.mp hentry
    have hrow := hparents (place ++ [name], entry) (by simp [htable])
    rw [List.dropLast_concat] at hrow
    by_cases hplace : place = []
    · rw [if_pos hplace]
    · rw [if_neg hplace]
      exact hrow.resolve_left hplace

/-- A project in `/r` with two links in its `out` directory, to a directory outside and to a
file in there. -/
def linked : FileSystem :=
  ofTable [(["etc"], .dir), (["etc", "passwd"], .file), (["r"], .dir), (["r", "out"], .dir),
    (["r", "out", "conf"], .link [.rootDir, .normal "etc"]),
    (["r", "out", "users"], .link [.rootDir, .normal "etc", .normal "passwd"])] (by decide)

end FileSystem

open FileSystem (linked)

namespace CheatsConfig

end CheatsConfig

end BaseAnvil.Fs
