import BaseAnvil.Fs.Permissions

/-!
# BaseAnvil.Fs.PermissionJoin

The lookup of a permission against its documentation: the highest privilege of the entries with
the longest matching path.

The entries are added up from the left, and the table that does so takes `Read` and `ReadWrite`
for `Read`. So the answer depends on the order, unless there is no such pair (`Unambiguous`).
-/

namespace BaseAnvil.Fs

open Lib

/-! ### Adding up -/

variable {kind : FsAccessKind}

namespace FsAccessPermission

@[simp] theorem keepHighest_readWrite : keepHighest .readWrite a = .readWrite := rfl

@[simp] theorem keepHighest_none : keepHighest .none a = a := by
  cases a <;> rfl

/-- What is granted stays granted. -/
theorem le_keepHighest (b : FsAccessPermission) : a ≤ keepHighest a b := by
  intro kind
  cases a <;> cases b <;> cases kind <;> decide

/-- Nothing is granted that neither of the two grants. -/
theorem isGranted_of_keepHighest {a b : FsAccessPermission}
    (h : (keepHighest a b).isGranted kind = true) :
    a.isGranted kind = true ∨ b.isGranted kind = true := by
  revert h
  cases a <;> cases b <;> cases kind <;> decide

variable {accesses : List FsAccessPermission}

theorem foldl_readWrite : accesses.foldl keepHighest .readWrite = .readWrite := by
  induction accesses with
  | nil => rfl
  | cons a rest ih => simpa using ih

/-- From `Read` only `Write` leads on. -/
theorem foldl_read :
    accesses.foldl keepHighest .read = if .write ∈ accesses then .readWrite else .read := by
  induction accesses with
  | nil => rfl
  | cons a rest ih => cases a <;> simp [keepHighest, ih, foldl_readWrite]

theorem foldl_write :
    accesses.foldl keepHighest .write = if .read ∈ accesses then .readWrite else .write := by
  induction accesses with
  | nil => rfl
  | cons a rest ih => cases a <;> simp [keepHighest, ih, foldl_readWrite]

/-- Nothing is granted that no entry grants. -/
theorem exists_isGranted_of_foldl (h : (accesses.foldl keepHighest .none).isGranted kind = true) :
    ∃ a ∈ accesses, a.isGranted kind = true := by
  have hgeneral : ∀ (l : List FsAccessPermission) (start : FsAccessPermission),
      (l.foldl keepHighest start).isGranted kind = true →
        start.isGranted kind = true ∨ ∃ a ∈ l, a.isGranted kind = true := by
    intro l
    induction l with
    | nil => exact fun _ h => .inl h
    | cons a rest ih =>
      intro start h
      rcases ih _ h with hstart | ⟨b, hb, hgrants⟩
      · rcases isGranted_of_keepHighest hstart with hs | ha
        · exact .inl hs
        · exact .inr ⟨a, by simp, ha⟩
      · exact .inr ⟨b, by simp [hb], hgrants⟩
  rcases hgeneral accesses .none h with hnone | hmem
  · cases hnone
  · exact hmem

/-- There is no `ReadWrite` beside only one of the others. -/
def Clear (accesses : List FsAccessPermission) : Prop :=
  .readWrite ∈ accesses → (.read ∈ accesses ↔ .write ∈ accesses)

/-- Without such pairs all that an entry grants is granted. -/
theorem isGranted_foldl_of_mem (hclear : Clear accesses) {a : FsAccessPermission}
    (ha : a ∈ accesses) (hgrants : a.isGranted kind = true) :
    (accesses.foldl keepHighest .none).isGranted kind = true := by
  induction accesses with
  | nil => cases ha
  | cons first rest ih =>
    rw [List.foldl_cons, keepHighest_none]
    cases first with
    | none =>
      refine ih (by simpa [Clear] using hclear) ?_
      rcases List.mem_cons.mp ha with rfl | ha
      · cases hgrants
      · exact ha
    | readWrite =>
      rw [foldl_readWrite]
      rfl
    | read =>
      rw [foldl_read]
      split
      case isTrue h => rfl
      case isFalse h =>
        -- `Write` is not there, so `ReadWrite` is not either.
        cases a <;> cases kind <;> simp_all [Clear, isGranted]
    | write =>
      rw [foldl_write]
      split
      case isTrue h => rfl
      case isFalse h => cases a <;> cases kind <;> simp_all [Clear, isGranted]

theorem isLUB_foldl (hclear : Clear accesses) :
    IsLUB {a | a ∈ accesses} (accesses.foldl keepHighest .none) := by
  refine ⟨fun a ha kind hgrants => isGranted_foldl_of_mem hclear ha hgrants, ?_⟩
  intro bound hbound kind hgrants
  obtain ⟨a, ha, hagrants⟩ := exists_isGranted_of_foldl hgrants
  exact hbound ha kind hagrants

end FsAccessPermission

open FsAccessPermission hiding none

namespace FsPermissions

variable {resolver : Resolver} {perms : FsPermissions} {path : Path}

/-- The accesses of the longest matching entries, in their order. -/
def accesses (resolver : Resolver) (perms : FsPermissions) (path : Path) :
    List FsAccessPermission :=
  (perms.decisive resolver path).map (·.access)

theorem mem_accesses {access : FsAccessPermission} :
    access ∈ perms.accesses resolver path ↔
      ∃ perm, perms.Longest resolver path perm ∧ perm.access = access := by
  simp [accesses, mem_decisive]

theorem combineAll_access (entries : List PathPermission) :
    combineAll (·.access) keepHighest .none entries =
      (entries.map (·.access)).foldl keepHighest .none := by
  cases entries with
  | nil => rfl
  | cons perm rest => simp [combineAll, List.foldl_map]

section

variable (hne : perms.Nonempty resolver)
include hne

/-- The lookup adds up the accesses. -/
theorem findPermission_eq_foldl :
    perms.findPermission resolver path =
      if perms.accesses resolver path = [] then none
      else some ((perms.accesses resolver path).foldl keepHighest .none) := by
  simp [findPermission_eq hne, accesses, combineAll_access]

theorem findPermission_eq_none :
    perms.findPermission resolver path = none ↔
      ∀ perm ∈ perms.permissions, ¬perm.Matches resolver path := by
  rw [findPermission_eq_foldl hne, ← decisive_eq_nil]
  simp [accesses]

theorem isPathAllowed_iff :
    perms.isPathAllowed resolver path kind = true ↔
      ((perms.accesses resolver path).foldl keepHighest .none).isGranted kind = true := by
  unfold isPathAllowed
  rw [findPermission_eq_foldl hne]
  cases haccesses : perms.accesses resolver path with
  | nil => simp [isGranted]
  | cons access rest => simp

theorem isPathAllowed_iff_exists (hclear : Clear (perms.accesses resolver path)) :
    perms.isPathAllowed resolver path kind = true ↔
      ∃ access ∈ perms.accesses resolver path, access.isGranted kind = true := by
  rw [isPathAllowed_iff hne]
  refine ⟨exists_isGranted_of_foldl, fun h => ?_⟩
  obtain ⟨access, hmem, hgrants⟩ := h
  exact isGranted_foldl_of_mem hclear hmem hgrants

end

/-- What the lookup should return, and what should follow for the checks. -/
structure Documented (resolver : Resolver) (perms : FsPermissions) (path : Path) : Prop where
  none_iff : perms.findPermission resolver path = none ↔
    ∀ perm ∈ perms.permissions, ¬perm.Matches resolver path
  isLUB : ∀ access, perms.findPermission resolver path = some access →
    IsLUB {a | ∃ perm, perms.Longest resolver path perm ∧ perm.access = a} access
  /-- The order does not matter, nor how often an entry is there. -/
  same_entries : ∀ perms' : FsPermissions,
    (∀ perm, perm ∈ perms'.permissions ↔ perm ∈ perms.permissions) →
      ∀ kind, perms'.isPathAllowed resolver path kind = perms.isPathAllowed resolver path kind
  /-- An entry more for the same path revokes nothing. -/
  add_grants : ∀ longest perm, perms.Longest resolver path longest →
    perm.permissionPath resolver = longest.permissionPath resolver →
      ∀ kind, perms.isPathAllowed resolver path kind = true →
        (perms.add perm).isPathAllowed resolver path kind = true

/-- Among the longest matching entries there is no `ReadWrite` beside only one of `Read` and
`Write`. -/
def Unambiguous (resolver : Resolver) (perms : FsPermissions) (path : Path) : Prop :=
  Clear (perms.accesses resolver path)

variable {perm : PathPermission} {perms' : FsPermissions}

theorem Longest.of_same_entries
    (hsame : ∀ perm, perm ∈ perms'.permissions ↔ perm ∈ perms.permissions)
    (h : perms.Longest resolver path perm) : perms'.Longest resolver path perm :=
  ⟨(hsame perm).mpr h.mem, h.matches_path, fun other hother => h.le other ((hsame other).mp hother)⟩

theorem mem_accesses_of_same_entries {access : FsAccessPermission}
    (hsame : ∀ perm, perm ∈ perms'.permissions ↔ perm ∈ perms.permissions) :
    access ∈ perms'.accesses resolver path ↔ access ∈ perms.accesses resolver path := by
  rw [mem_accesses, mem_accesses]
  refine exists_congr fun perm => and_congr_left fun _ => ⟨?_, Longest.of_same_entries hsame⟩
  exact Longest.of_same_entries fun perm => (hsame perm).symm

variable {longest : PathPermission}

/-- With an entry more for the longest path, its access is the last one. -/
theorem accesses_add (h : perms.Longest resolver path longest)
    (hpath : perm.permissionPath resolver = longest.permissionPath resolver) :
    (perms.add perm).accesses resolver path = perms.accesses resolver path ++ [perm.access] := by
  have hlongest : (perms.add perm).Longest resolver path longest := by
    refine ⟨List.mem_append_left _ h.mem, h.matches_path, fun other hother hmatches => ?_⟩
    rcases List.mem_append.mp hother with hother | hother
    · exact h.le other hother hmatches
    · rw [List.mem_singleton.mp hother, hpath]
  rw [accesses, accesses, decisive_eq_filter hlongest, decisive_eq_filter h, add]
  simp [hpath]

/-- With a longest entry put in front, its access is the first one. -/
theorem accesses_cons (h : perms.Longest resolver path longest) :
    accesses resolver ⟨longest :: perms.permissions⟩ path =
      longest.access :: perms.accesses resolver path := by
  have hlongest : Longest resolver ⟨longest :: perms.permissions⟩ path longest :=
    h.of_same_entries fun perm => by
      simpa using fun heq : perm = longest => heq ▸ h.mem
  rw [accesses, accesses, decisive_eq_filter hlongest, decisive_eq_filter h]
  simp

/-- Putting one of the longest entries in front decides, if the answer is documented. -/
theorem isPathAllowed_front (hne : perms.Nonempty resolver) (h : Documented resolver perms path)
    (hlongest : perms.Longest resolver path longest) :
    perms.isPathAllowed resolver path kind = true ↔
      ((perms.accesses resolver path).foldl keepHighest longest.access).isGranted kind = true := by
  have hsame : ∀ perm, perm ∈ (⟨longest :: perms.permissions⟩ : FsPermissions).permissions ↔
      perm ∈ perms.permissions := fun perm => by
    simpa using fun heq : perm = longest => heq ▸ hlongest.mem
  have hne' : Nonempty resolver ⟨longest :: perms.permissions⟩ := fun perm hperm =>
    hne perm ((hsame perm).mp hperm)
  rw [← h.same_entries _ hsame, isPathAllowed_iff hne', accesses_cons hlongest, List.foldl_cons,
    keepHighest_none]

/-- A documented answer is that of `ReadWrite`, if one of the longest entries is. -/
theorem isPathAllowed_of_readWrite (hne : perms.Nonempty resolver)
    (h : Documented resolver perms path) (hmem : .readWrite ∈ perms.accesses resolver path)
    (kind : FsAccessKind) : perms.isPathAllowed resolver path kind = true := by
  obtain ⟨longest, hlongest, haccess⟩ := mem_accesses.mp hmem
  rw [isPathAllowed_front hne h hlongest, haccess, foldl_readWrite]
  rfl

/-- **Entries of the same path.** The lookup is as documented exactly if the longest matching
entries are unambiguous. Added up from the left, `Read` and `ReadWrite` are `Read` in one order and
`ReadWrite` in the other. -/
theorem documented_iff_unambiguous (resolver : Resolver) (perms : FsPermissions) (path : Path)
    (hpaths : ∀ perm ∈ perms.permissions, perm.path ≠ []) :
    Documented resolver perms path ↔ Unambiguous resolver perms path := by
  have hne : perms.Nonempty resolver := nonempty_of_path hpaths
  refine ⟨fun h hboth => ⟨fun hread => ?_, fun hwrite => ?_⟩,
    fun h => ⟨findPermission_eq_none hne, ?_, ?_, ?_⟩⟩
  · -- With `Read` in front, only `Write` can still grant writing.
    have hallowed := isPathAllowed_of_readWrite hne h hboth .write
    obtain ⟨longest, hlongest, haccess⟩ := mem_accesses.mp hread
    rw [isPathAllowed_front hne h hlongest, haccess, foldl_read] at hallowed
    by_contra hwrite
    rw [if_neg hwrite] at hallowed
    cases hallowed
  · have hallowed := isPathAllowed_of_readWrite hne h hboth .read
    obtain ⟨longest, hlongest, haccess⟩ := mem_accesses.mp hwrite
    rw [isPathAllowed_front hne h hlongest, haccess, foldl_write] at hallowed
    by_contra hread
    rw [if_neg hread] at hallowed
    cases hallowed
  · intro access haccess
    rw [findPermission_eq_foldl hne] at haccess
    split at haccess
    · cases haccess
    · obtain rfl := Option.some.inj haccess
      simpa only [← mem_accesses] using isLUB_foldl h
  · intro perms' hsame kind
    have hne' : perms'.Nonempty resolver := fun perm hperm => hne perm ((hsame perm).mp hperm)
    have hmem := @mem_accesses_of_same_entries resolver perms path perms'
    have hclear : Clear (perms'.accesses resolver path) := by
      unfold Clear
      rwa [hmem hsame, hmem hsame, hmem hsame]
    rw [Bool.eq_iff_iff, isPathAllowed_iff_exists hne' hclear, isPathAllowed_iff_exists hne h]
    simp only [hmem hsame]
  · intro longest perm hlongest hpath kind hallowed
    have hne' : (perms.add perm).Nonempty resolver := by
      intro other hother
      rcases List.mem_append.mp hother with hother | hother
      · exact hne other hother
      · rw [List.mem_singleton.mp hother, hpath]
        exact hne longest hlongest.mem
    rw [isPathAllowed_iff hne', accesses_add hlongest hpath, List.foldl_concat]
    exact le_keepHighest _ kind ((isPathAllowed_iff hne).mp hallowed)

/-- No links. -/
def plainResolver : Resolver := ⟨fun _ => none, fun _ _ h => by cases h⟩

/-- `/out` -/
def sampleDir : Path := [.rootDir, .normal "out"]

/-- `/out/a` -/
def sampleFile : Path := sampleDir ++ [.normal "a"]

/-- Reading is allowed in a directory, and then writing. -/
theorem documented_iff_unambiguous_two :
    Documented plainResolver ⟨[⟨.read, sampleDir⟩, ⟨.write, sampleDir⟩]⟩ sampleFile :=
  (documented_iff_unambiguous _ _ _ (by decide)).mpr (by unfold Unambiguous Clear; decide)

/-- `Read` before `ReadWrite` is `Read`, the other way round it is `ReadWrite`. -/
theorem not_documented :
    findPermission plainResolver ⟨[⟨.read, sampleDir⟩, ⟨.readWrite, sampleDir⟩]⟩ sampleFile =
      some .read ∧
    findPermission plainResolver ⟨[⟨.readWrite, sampleDir⟩, ⟨.read, sampleDir⟩]⟩ sampleFile =
      some .readWrite ∧
    ¬Documented plainResolver ⟨[⟨.read, sampleDir⟩, ⟨.readWrite, sampleDir⟩]⟩ sampleFile := by
  refine ⟨by decide, by decide, fun h => ?_⟩
  have hsame := h.same_entries ⟨[⟨.readWrite, sampleDir⟩, ⟨.read, sampleDir⟩]⟩
    (fun perm => by simp [or_comm]) .write
  revert hsame
  decide

end FsPermissions

end BaseAnvil.Fs
