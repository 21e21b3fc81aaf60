import BaseAnvil.Lib.KeepMax
import Mathlib.Data.List.MinMax
import Mathlib.Order.Bounds.Basic

/-!
# BaseAnvil.Fs.Permissions

Which files cheatcodes may touch (`config/src/fs_permissions.rs`).

A path is the list of what stands between its separators, with a `.` for one at the end. Drive
prefixes are those of another platform and are left out.
-/

namespace BaseAnvil.Fs

open Lib

/-- `std::path::Component`. -/
inductive Component
  | rootDir
  | curDir
  | parentDir
  | normal (name : String)
deriving DecidableEq, Repr

/-- A path, as written. -/
abbrev Path := List Component

/-- `Path::components`: a `.` counts at the beginning only. -/
def components : Path → Path
  | [] => []
  | first :: rest => first :: rest.filter (· ≠ .curDir)

theorem components_ne_nil {path : Path} (h : path ≠ []) : components path ≠ [] := by
  cases path with
  | nil => exact absurd rfl h
  | cons first rest => simp [components]

/-- `Path::starts_with`, component by component. -/
def startsWith (path base : Path) : Bool := (components base).isPrefixOf (components path)

/-- The operation on the file system. -/
inductive FsAccessKind
  | read
  | write
deriving DecidableEq, Repr

/-- The status of file system access. -/
inductive FsAccessPermission
  | none
  | read
  | write
  | readWrite
deriving DecidableEq, Repr

namespace FsAccessPermission

/-- Whether the access is allowed. -/
def isGranted : FsAccessPermission → FsAccessKind → Bool
  | .readWrite, _ => true
  | .write, .write => true
  | .read, .read => true
  | .none, _ => false
  | _, _ => false

/-- How an entry is added to those before it that have the same path. -/
def keepHighest : FsAccessPermission → FsAccessPermission → FsAccessPermission
  | .readWrite, _ => .readWrite
  | .read, .write => .readWrite
  | .write, .read => .readWrite
  | .none, permission => permission
  | existing, _ => existing

/-! An access is above another if it grants all that the other grants. -/

instance : LE FsAccessPermission where
  le a b := ∀ kind, a.isGranted kind = true → b.isGranted kind = true

end FsAccessPermission

/-- An access permission to a single path. -/
structure PathPermission where
  access : FsAccessPermission
  path : Path
deriving DecidableEq, Repr

/-- The file system, as far as the lookup asks it. A path that can be resolved has a root. -/
structure Resolver where
  canonicalize : Path → Option Path
  ne_nil : ∀ path resolved, canonicalize path = some resolved → resolved ≠ []

variable {path : Path} {perm : PathPermission}

namespace PathPermission

variable (resolver : Resolver)

/-- The path of the entry with resolved links, or as it is if there is nothing at it. -/
def permissionPath (perm : PathPermission) : Path :=
  components ((resolver.canonicalize perm.path).getD perm.path)

/-- The entry is for this path or for a directory above it. -/
def Matches (path : Path) (perm : PathPermission) : Prop :=
  startsWith path ((resolver.canonicalize perm.path).getD perm.path) = true

instance (path : Path) (perm : PathPermission) : Decidable (perm.Matches resolver path) :=
  inferInstanceAs (Decidable (_ = true))

variable {resolver}

theorem matches_iff :
    perm.Matches resolver path ↔ perm.permissionPath resolver <+: components path := by
  simp [Matches, startsWith, permissionPath]

theorem permissionPath_ne_nil (h : perm.path ≠ []) : perm.permissionPath resolver ≠ [] := by
  refine components_ne_nil ?_
  cases hcanonical : resolver.canonicalize perm.path with
  | none => exact h
  | some resolved => exact resolver.ne_nil _ _ hcanonical

/-- Two matching entries of one length are for one path. -/
theorem permissionPath_eq {perm' : PathPermission} (h : perm.Matches resolver path)
    (h' : perm'.Matches resolver path)
    (hlength : (perm.permissionPath resolver).length = (perm'.permissionPath resolver).length) :
    perm.permissionPath resolver = perm'.permissionPath resolver := by
  obtain ⟨rest, hrest⟩ := matches_iff.mp h
  obtain ⟨rest', hrest'⟩ := matches_iff.mp h'
  exact (List.append_inj (hrest.trans hrest'.symm) hlength).1

end PathPermission

/-- `FsPermissions`. -/
structure FsPermissions where
  permissions : List PathPermission
deriving DecidableEq, Repr

namespace FsPermissions

variable (resolver : Resolver)

/-- Adds a new permission. -/
def add (perms : FsPermissions) (permission : PathPermission) : FsPermissions :=
  ⟨perms.permissions ++ [permission]⟩

/-- The loop of `find_permission`: the length of the longest matching path so far, and the
access that goes with it. -/
def scan (path : Path) (best : Nat × FsAccessPermission) (perm : PathPermission) :
    Nat × FsAccessPermission :=
  let permissionPath := (resolver.canonicalize perm.path).getD perm.path
  if startsWith path permissionPath then
    let pathLen := (components permissionPath).length
    if pathLen > best.1 then (pathLen, perm.access)
    else if pathLen = best.1 then (best.1, best.2.keepHighest perm.access)
    else best
  else best

/-- The permission for the matching path. -/
def findPermission (perms : FsPermissions) (path : Path) : Option FsAccessPermission :=
  let best := perms.permissions.foldl (scan resolver path) (0, .none)
  if best.1 > 0 then some best.2 else none

/-- Whether access to the path is allowed. -/
def isPathAllowed (perms : FsPermissions) (path : Path) (kind : FsAccessKind) : Bool :=
  match perms.findPermission resolver path with
  | some permission => permission.isGranted kind
  | none => false

/-! ### What the loop keeps -/

variable {resolver} {perms : FsPermissions} {path : Path}

/-- No entry is for the empty path, which every path starts with. -/
def Nonempty (resolver : Resolver) (perms : FsPermissions) : Prop :=
  ∀ perm ∈ perms.permissions, perm.permissionPath resolver ≠ []

open PathPermission

theorem nonempty_of_path (h : ∀ perm ∈ perms.permissions, perm.path ≠ []) :
    perms.Nonempty resolver :=
  fun perm hperm => permissionPath_ne_nil (h perm hperm)

/-- A matching entry no other is longer than. -/
structure Longest (resolver : Resolver) (perms : FsPermissions) (path : Path)
    (perm : PathPermission) : Prop where
  mem : perm ∈ perms.permissions
  matches_path : perm.Matches resolver path
  le : ∀ other ∈ perms.permissions, other.Matches resolver path →
    (other.permissionPath resolver).length ≤ (perm.permissionPath resolver).length

/-- The loop is a pass over the matching entries. -/
theorem foldl_scan (entries : List PathPermission) (best : Nat × FsAccessPermission) :
    entries.foldl (scan resolver path) best =
      (entries.filter (·.Matches resolver path)).foldl
        (keepMax (fun perm => (perm.permissionPath resolver).length) (·.access)
          FsAccessPermission.keepHighest) best := by
  induction entries generalizing best with
  | nil => rfl
  | cons perm rest ih =>
    rw [List.foldl_cons, ih]
    by_cases h : perm.Matches resolver path
    · rw [List.filter_cons_of_pos (by simpa using h), List.foldl_cons]
      congr 1
      simp only [scan, keepMax, if_pos (show startsWith path _ = true from h), gt_iff_lt]
      rfl
    · rw [List.filter_cons_of_neg (by simpa using h)]
      congr 1
      simp only [scan, if_neg (show ¬startsWith path _ = true from h)]

variable (resolver perms path) in
/-- The entries the answer is made of, in their order. -/
def decisive : List PathPermission :=
  let matching := perms.permissions.filter (·.Matches resolver path)
  matching.filter fun perm => matching.all fun other =>
    (other.permissionPath resolver).length ≤ (perm.permissionPath resolver).length

theorem mem_decisive : perm ∈ perms.decisive resolver path ↔ perms.Longest resolver path perm := by
  simp only [decisive, List.mem_filter, List.all_eq_true, decide_eq_true_eq, and_imp]
  exact ⟨fun h => ⟨h.1.1, h.1.2, h.2⟩, fun h => ⟨⟨h.mem, h.matches_path⟩, h.le⟩⟩

/-- Where an entry matches, there is a longest one. -/
theorem decisive_eq_nil : perms.decisive resolver path = [] ↔
    ∀ perm ∈ perms.permissions, ¬perm.Matches resolver path := by
  refine ⟨fun h perm hperm hmatches => ?_, fun h => ?_⟩
  · have hmem : perm ∈ perms.permissions.filter (·.Matches resolver path) :=
      List.mem_filter.mpr ⟨hperm, by simpa using hmatches⟩
    cases hmost : (perms.permissions.filter (·.Matches resolver path)).argmax
      fun perm => (perm.permissionPath resolver).length with
    | none => exact absurd (List.argmax_eq_none.mp hmost) (List.ne_nil_of_mem hmem)
    | some most =>
      have hlongest := List.mem_filter.mp (List.argmax_mem hmost)
      have hle : ∀ other ∈ perms.permissions.filter (·.Matches resolver path),
          (other.permissionPath resolver).length ≤ (most.permissionPath resolver).length :=
        fun _ hother => List.le_of_mem_argmax
          (f := fun perm : PathPermission => (perm.permissionPath resolver).length) hother hmost
      have hdecisive : most ∈ perms.decisive resolver path := mem_decisive.mpr
        ⟨hlongest.1, by simpa using hlongest.2, fun other hother hmatches' =>
          hle other (List.mem_filter.mpr ⟨hother, by simpa using hmatches'⟩)⟩
      rw [h] at hdecisive
      cases hdecisive
  · refine List.eq_nil_iff_forall_not_mem.mpr fun perm hperm => ?_
    have hlongest := mem_decisive.mp hperm
    exact h perm hlongest.mem hlongest.matches_path

/-- The entries are those for the path of any longest one. -/
theorem decisive_eq_filter {longest : PathPermission} (h : perms.Longest resolver path longest) :
    perms.decisive resolver path = perms.permissions.filter fun perm =>
      perm.permissionPath resolver = longest.permissionPath resolver := by
  unfold decisive
  rw [List.filter_filter]
  refine List.filter_congr fun perm hperm => ?_
  rw [Bool.eq_iff_iff]
  simp only [Bool.and_eq_true, List.all_eq_true, List.mem_filter, decide_eq_true_eq, and_imp]
  refine ⟨fun hp => ?_, fun hp => ⟨fun other hother hmatches => ?_, ?_⟩⟩
  · exact permissionPath_eq hp.2 h.matches_path
      (le_antisymm (h.le perm hperm hp.2) (hp.1 longest h.mem h.matches_path))
  · exact hp ▸ h.le other hother hmatches
  · rw [matches_iff, hp]
    exact matches_iff.mp h.matches_path

/-- What the loop ends with. -/
theorem foldl_scan_spec (resolver : Resolver) (perms : FsPermissions) (path : Path)
    {best : Nat × FsAccessPermission}
    (h : perms.permissions.foldl (scan resolver path) (0, .none) = best) :
    (0 < best.1 → perms.decisive resolver path ≠ [] ∧
      best.2 = combineAll (·.access) FsAccessPermission.keepHighest .none
        (perms.decisive resolver path) ∧
      ∀ perm, perms.Longest resolver path perm → perm.permissionPath resolver ≠ []) ∧
    ∀ perm ∈ perms.permissions, perm.Matches resolver path →
      (perm.permissionPath resolver).length ≤ best.1 := by
  have hkept := @keptBy_foldl _ _ (fun perm => (perm.permissionPath resolver).length) (·.access)
    FsAccessPermission.keepHighest .none (perms.permissions.filter (·.Matches resolver path))
  rw [← foldl_scan, h] at hkept
  refine ⟨fun hpos => ?_, fun perm hperm hmatches =>
    hkept.le perm (List.mem_filter.mpr ⟨hperm, by simpa using hmatches⟩)⟩
  obtain ⟨most, hmost, hmax⟩ := hkept.attained.resolve_left hpos.ne'
  have hmatches := List.mem_filter.mp hmost
  have hlongest : perms.Longest resolver path most :=
    ⟨hmatches.1, by simpa using hmatches.2, fun other hother hother' => by
      rw [hmax]
      exact hkept.le other (List.mem_filter.mpr ⟨hother, by simpa using hother'⟩)⟩
  refine ⟨List.ne_nil_of_mem (mem_decisive.mpr hlongest), ?_, fun perm hperm hnil => ?_⟩
  swap
  · have hle := hperm.le most hlongest.mem hlongest.matches_path
    rw [hnil, hmax] at hle
    exact absurd hpos (Nat.not_lt.mpr hle)
  rw [hkept.value hpos, decisive_eq_filter hlongest, List.filter_filter]
  congr 1
  refine List.filter_congr fun perm hperm => ?_
  rw [Bool.eq_iff_iff, Bool.and_eq_true, decide_eq_true_eq, decide_eq_true_eq, decide_eq_true_eq,
    ← hmax]
  exact ⟨fun hp => permissionPath_eq hp.2 hlongest.matches_path hp.1, fun hp =>
    ⟨by rw [hp], matches_iff.mpr (hp ▸ matches_iff.mp
      hlongest.matches_path)⟩⟩

/-- What an answer of the lookup is made of. -/
theorem eq_combineAll_of_findPermission {access : FsAccessPermission}
    (h : perms.findPermission resolver path = some access) :
    perms.decisive resolver path ≠ [] ∧
      access = combineAll (·.access) FsAccessPermission.keepHighest .none
        (perms.decisive resolver path) ∧
      ∀ perm, perms.Longest resolver path perm → perm.permissionPath resolver ≠ [] := by
  have hspec := (foldl_scan_spec resolver perms path rfl).1
  simp only [findPermission] at h
  split at h
  case isTrue hpos =>
    obtain rfl := Option.some.inj h
    exact hspec hpos
  case isFalse => cases h

/-- What the lookup returns, without the loop. -/
theorem findPermission_eq (hne : perms.Nonempty resolver) :
    perms.findPermission resolver path =
      if perms.decisive resolver path = [] then none
      else some (combineAll (·.access) FsAccessPermission.keepHighest .none
        (perms.decisive resolver path)) := by
  cases hfind : perms.findPermission resolver path with
  | some access =>
    obtain ⟨hdecisive, haccess, -⟩ := eq_combineAll_of_findPermission hfind
    rw [if_neg hdecisive, haccess]
  | none =>
    rw [if_pos]
    refine decisive_eq_nil.mpr fun perm hperm hmatches => ?_
    have hle := (foldl_scan_spec resolver perms path rfl).2 perm hperm hmatches
    have hpos := List.length_pos_of_ne_nil (hne perm hperm)
    simp only [findPermission, gt_iff_lt, if_pos (hpos.trans_le hle), reduceCtorEq] at hfind

end FsPermissions

end BaseAnvil.Fs
