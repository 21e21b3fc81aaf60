import BaseAnvil.Lib.Dfs
import BaseAnvil.Pool.Transaction
import Mathlib.Data.Prod.Lex
import Mathlib.Data.String.Basic

/-!
# BaseAnvil.Linking.Linker

The linker of compiled contracts (`crates/linking/src/lib.rs`).

The code of a contract has placeholders for the addresses of the libraries it uses. A placeholder
names a library by the file it is in and its name; an artifact is named by its source, its name, the
version of the compiler and more. `find` goes from the first to the second for a given version, and
`libPath` goes back, forgetting the version: addresses are recorded for what it returns.

A file is the list of the components of its path, so that the strings of link references and the
paths of artifacts can be compared as the source compares them. Addresses of user-provided libraries
are texts, which need not be addresses; the texts and the computation of addresses are the fields of
`Addresses`. Bytecode belongs to the compiler crate: it is any type with the functions and laws of
`CompactBytecode`. A panic of the source is `none`.
-/

namespace BaseAnvil.Linking

open Lib Pool

/-! ## Code -/

/-- The components of a path. -/
abbrev Path := List String

/-- How link references and recorded addresses name a library: its file and its name. -/
abbrev LibKey := Path × String

/-- What the compiler crate does with a `CompactBytecode`. The placeholders in it are known by their
references. To link a library replaces exactly the placeholders of this library, so it does not
matter which of two libraries is linked first. -/
class CompactBytecode (κ : Type) where
  linkReferences : κ → Finset LibKey
  /-- Put an address in the place of a library. -/
  link : κ → LibKey → Address → κ
  isUnlinked : κ → Bool
  /-- The bytes of a code without placeholders. -/
  bytes : κ → Option (List UInt8)
  linkReferences_link : ∀ code key address,
    linkReferences (link code key address) = (linkReferences code).erase key
  link_of_notMem : ∀ code key address, key ∉ linkReferences code → link code key address = code
  link_comm : ∀ code key address key' address', key ≠ key' →
    link (link code key address) key' address' = link (link code key' address') key address
  isUnlinked_iff : ∀ code, isUnlinked code = true ↔ ∃ key, key ∈ linkReferences code
  bytes_eq_none_iff : ∀ code, bytes code = none ↔ isUnlinked code = true

section

variable {κ : Type} {key : LibKey}

/-- A `CompactContractBytecode`. -/
structure Contract (κ : Type) where
  bytecode : Option κ
  /-- The code in `deployed_bytecode`. -/
  deployedBytecode : Option κ
deriving DecidableEq

variable [CompactBytecode κ]

namespace Contract

/-- Both codes with an address in the place of a library. -/
def link (contract : Contract κ) (key : LibKey) (address : Address) : Contract κ where
  bytecode := contract.bytecode.map (CompactBytecode.link · key address)
  deployedBytecode := contract.deployedBytecode.map (CompactBytecode.link · key address)

/-- The references of both codes. -/
def linkReferences (contract : Contract κ) : Finset LibKey :=
  (contract.bytecode.map CompactBytecode.linkReferences).getD ∅ ∪
    (contract.deployedBytecode.map CompactBytecode.linkReferences).getD ∅

/-- `get_bytecode_bytes`: the creation code, if it is there and linked. -/
def getBytecodeBytes (contract : Contract κ) : Option (List UInt8) :=
  contract.bytecode.bind CompactBytecode.bytes

/-- No placeholder is left in either code. -/
def Linked (contract : Contract κ) : Prop :=
  ∀ code, contract.bytecode = some code ∨ contract.deployedBytecode = some code →
    CompactBytecode.isUnlinked code = false

variable {contract : Contract κ}

theorem mem_linkReferences :
    key ∈ contract.linkReferences ↔
      ∃ code, (contract.bytecode = some code ∨ contract.deployedBytecode = some code) ∧
        key ∈ CompactBytecode.linkReferences code := by
  obtain ⟨creation, deployed⟩ := contract
  cases creation <;> cases deployed <;> simp [linkReferences, or_and_right, exists_or]

/-- A contract without references is linked. -/
theorem linked_iff : contract.Linked ↔ ∀ key, key ∉ contract.linkReferences := by
  constructor
  · intro h key hkey
    obtain ⟨code, hcode, hmem⟩ := mem_linkReferences.mp hkey
    have hunlinked := (CompactBytecode.isUnlinked_iff code).mpr ⟨key, hmem⟩
    rw [h code hcode] at hunlinked
    cases hunlinked
  · intro h code hcode
    rw [Bool.eq_false_iff]
    intro hunlinked
    obtain ⟨key, hmem⟩ := (CompactBytecode.isUnlinked_iff code).mp hunlinked
    exact h key (mem_linkReferences.mpr ⟨code, hcode, hmem⟩)

end Contract

/-! ## Addresses and recorded libraries -/

/-- A `Libraries`: its map of maps from files and names to texts, in some order. -/
abbrev Libraries (τ : Type) := AList fun _ : LibKey => τ

/-- How addresses are written and computed, and how the paths of recorded libraries are stripped. -/
structure Addresses (τ : Type) where
  /-- `Address::from_str`. -/
  fromStr : τ → Option Address
  /-- `Address::to_checksum`. -/
  toChecksum : Address → τ
  fromStr_toChecksum : ∀ address, fromStr (toChecksum address) = some address
  /-- `Address::create`. -/
  create : Address → UInt64 → Address
  /-- `Address::create2_from_code`. -/
  create2FromCode : Address → B256 → List UInt8 → Address
  /-- `Libraries::with_stripped_file_prefixes`. -/
  withStrippedFilePrefixes : Libraries τ → Path → Libraries τ
  /-- No text is made up. -/
  exists_of_stripped : ∀ libraries root key text,
    (withStrippedFilePrefixes libraries root).lookup key = some text →
      ∃ key', libraries.lookup key' = some text

/-- The path below `root`, or the path itself. -/
def stripPrefix (root path : Path) : Path :=
  if root <+: path then path.drop root.length else path

namespace Libraries

variable {τ : Type}

theorem lookup_insert_ite (libraries : Libraries τ) (key key' : LibKey) (text : τ) :
    (AList.insert key text libraries).lookup key' =
      if key' = key then some text else libraries.lookup key' := by
  split
  next heq => rw [heq, AList.lookup_insert]
  next hne => exact AList.lookup_insert_ne hne

/-- All recorded texts are addresses. -/
def Valid (addresses : Addresses τ) (libraries : Libraries τ) : Prop :=
  ∀ key text, libraries.lookup key = some text → (addresses.fromStr text).isSome

variable {addresses : Addresses τ} {libraries : Libraries τ}

theorem Valid.withStrippedFilePrefixes (h : libraries.Valid addresses) (root : Path) :
    (addresses.withStrippedFilePrefixes libraries root).Valid addresses := by
  intro key text htext
  obtain ⟨key', htext'⟩ := addresses.exists_of_stripped libraries root key text htext
  exact h key' text htext'

theorem Valid.exists_fromStr (h : libraries.Valid addresses) :
    ∀ entry ∈ libraries.entries, ∃ address, addresses.fromStr entry.2 = some address :=
  fun _ hentry => Option.isSome_iff_exists.mp (h _ _ (AList.mem_lookup_iff.mpr hentry))

/-- Computed addresses are recorded as addresses. -/
theorem Valid.insert (h : libraries.Valid addresses) (key : LibKey) (address : Address) :
    Valid addresses (AList.insert key (addresses.toChecksum address) libraries) := by
  intro key' text htext
  rw [lookup_insert_ite] at htext
  split at htext
  next =>
    cases htext
    rw [addresses.fromStr_toChecksum]
    rfl
  next => exact h key' text htext

end Libraries

/-! ## The linker -/

/-- An `ArtifactId`; `rest` is what the linker does not look at, such as the path of the
artifact. -/
structure ArtifactId (ν ω : Type) where
  source : Path
  name : String
  version : ν
  rest : ω
deriving DecidableEq

/-- A `LinkerError`, without `LinkingFailed`, which linking itself does not return. -/
inductive LinkerError where
  | missingLibraryArtifact (file : Path) (name : String)
  | missingTargetArtifact
  | invalidAddress
  | cyclicDependency
deriving DecidableEq

/-- A `Linker`, with the artifacts in the order of their ids. -/
structure Linker (ν ω κ : Type) where
  root : Path
  contracts : AList fun _ : ArtifactId ν ω => Contract κ

/-- A `LinkOutput`. -/
structure LinkOutput (τ : Type) where
  libraries : Libraries τ
  libsToDeploy : List (List UInt8)

namespace Linker

variable {ν ω τ : Type} [DecidableEq ν] [DecidableEq ω]

/-- `convert_artifact_id_to_lib_path`. -/
def libPath (linker : Linker ν ω κ) (id : ArtifactId ν ω) : LibKey :=
  (stripPrefix linker.root id.source, String.ofList (id.name.toList.takeWhile (· ≠ '.')))

/-- `find_artifact_id_by_library_path`. -/
def find (linker : Linker ν ω κ) (key : LibKey) (version : Option ν) : Option (ArtifactId ν ω) :=
  linker.contracts.keys.find? fun id =>
    (match version with
      | some version => decide (id.version = version)
      | none => true) && decide (linker.libPath id = key)

/-- What `collect_dependencies` looks at for one artifact: its references, each resolved for the
version of the artifact. -/
def dependencies (order : IterOrder LibKey) (linker : Linker ν ω κ) (target : ArtifactId ν ω) :
    Except LinkerError (List (Except LinkerError (ArtifactId ν ω))) :=
  match linker.contracts.lookup target with
  | none => .error .missingTargetArtifact
  | some contract =>
    .ok ((order.toList contract.linkReferences).map fun key =>
      match linker.find key (some target.version) with
      | some id => .ok id
      | none => .error (.missingLibraryArtifact key.1 key.2))

/-- `collect_dependencies` for several targets. -/
def collectDependencies (order : IterOrder LibKey) (linker : Linker ν ω κ)
    (targets : List (ArtifactId ν ω)) : Option (Except LinkerError (Finset (ArtifactId ν ω))) :=
  Dfs.visitFrom (linker.dependencies order) (linker.contracts.entries.length + 1) targets ∅

/-- The walk over a set of ids, in their order. -/
def inOrder (linker : Linker ν ω κ) (ids : Finset (ArtifactId ν ω)) : List (ArtifactId ν ω) :=
  linker.contracts.keys.filter (· ∈ ids)

/-- Put in one recorded address. -/
def linkEntry (addresses : Addresses τ) (contract : Contract κ)
    (entry : Sigma fun _ : LibKey => τ) : Except LinkerError (Contract κ) :=
  match addresses.fromStr entry.2 with
  | none => .error .invalidAddress
  | some address => .ok (contract.link entry.1 address)

/-- `link`: put in all recorded addresses. -/
def link (addresses : Addresses τ) (linker : Linker ν ω κ) (target : ArtifactId ν ω)
    (libraries : Libraries τ) : Except LinkerError (Contract κ) :=
  match linker.contracts.lookup target with
  | none => .error .missingTargetArtifact
  | some contract => libraries.entries.foldlM (linkEntry addresses) contract

/-- An artifact refers to another one by a placeholder in one of its codes. -/
def Refers (linker : Linker ν ω κ) (a b : ArtifactId ν ω) : Prop :=
  ∃ contract, linker.contracts.lookup a = some contract ∧
    ∃ key ∈ contract.linkReferences, linker.find key (some a.version) = some b

/-- What can be reached from `a` through link references. -/
def Reaches (linker : Linker ν ω κ) (a b : ArtifactId ν ω) : Prop :=
  Relation.TransGen linker.Refers a b

/-- The artifact is there, and so is everything it refers to. -/
def Resolved (linker : Linker ν ω κ) (a : ArtifactId ν ω) : Prop :=
  ∃ contract, linker.contracts.lookup a = some contract ∧
    ∀ key ∈ contract.linkReferences, (linker.find key (some a.version)).isSome

variable {id : ArtifactId ν ω} {linker : Linker ν ω κ} {version : Option ν}

omit [DecidableEq ω] [CompactBytecode κ] in
theorem mem_keys_of_find (h : linker.find key version = some id) : id ∈ linker.contracts.keys :=
  List.mem_of_find?_eq_some h

omit [DecidableEq ω] [CompactBytecode κ] in
theorem libPath_of_find (h : linker.find key version = some id) : linker.libPath id = key := by
  have hid := List.find?_some h
  rw [Bool.and_eq_true] at hid
  exact of_decide_eq_true hid.2

omit [DecidableEq ω] [CompactBytecode κ] in
theorem version_of_find {version : ν} (h : linker.find key (some version) = some id) :
    id.version = version := by
  have hid := List.find?_some h
  rw [Bool.and_eq_true] at hid
  exact of_decide_eq_true hid.1

/-- With one version, libraries that can be reached are told apart by their paths and names. -/
theorem eq_of_libPath_eq
    (hversion : ∀ a ∈ linker.contracts.keys, ∀ b ∈ linker.contracts.keys, a.version = b.version)
    {s t a b : ArtifactId ν ω} (ha : linker.Reaches s a) (hb : linker.Reaches t b)
    (hpath : linker.libPath a = linker.libPath b) : a = b := by
  have hfound : ∀ {s c}, linker.Reaches s c →
      linker.find (linker.libPath c) (some c.version) = some c ∧ c ∈ linker.contracts.keys := by
    intro s c hc
    obtain ⟨x, -, contract, -, key, -, hfind⟩ := Relation.TransGen.tail'_iff.mp hc
    rw [libPath_of_find hfind, version_of_find hfind]
    exact ⟨hfind, mem_keys_of_find hfind⟩
  obtain ⟨hfinda, hkeya⟩ := hfound ha
  obtain ⟨hfindb, hkeyb⟩ := hfound hb
  rw [hpath, hversion a hkeya b hkeyb, hfindb] at hfinda
  exact (Option.some.inj hfinda).symm

/-! ### Dependencies -/

section

variable {order : IterOrder LibKey} {a : ArtifactId ν ω}

open Dfs

theorem next_dependencies_iff {b : ArtifactId ν ω} :
    Next (linker.dependencies order) a b ↔ linker.Refers a b := by
  unfold Next dependencies Refers
  cases hget : linker.contracts.lookup a with
  | none => simp
  | some contract =>
    constructor
    · rintro ⟨nexts, heq, hb⟩
      cases heq
      obtain ⟨key, hkey, hfind⟩ := List.mem_map.mp hb
      refine ⟨contract, rfl, key, (order.mem_toList _ key).mp hkey, ?_⟩
      cases hid : linker.find key (some a.version) with
      | none => simp [hid] at hfind
      | some id =>
        simp only [hid, Except.ok.injEq] at hfind
        rw [hfind]
    · rintro ⟨contract', heq, key, hkey, hfind⟩
      cases heq
      refine ⟨_, rfl, List.mem_map.mpr ⟨key, (order.mem_toList _ key).mpr hkey, ?_⟩⟩
      simp only [hfind]

theorem fails_dependencies {e : LinkerError} (h : Fails (linker.dependencies order) a e) :
    ¬ linker.Resolved a ∧
      (e = .missingTargetArtifact ∨ ∃ file name, e = .missingLibraryArtifact file name) := by
  unfold Fails dependencies at h
  unfold Resolved
  cases hget : linker.contracts.lookup a with
  | none =>
    rw [hget] at h
    rcases h with heq | ⟨nexts, heq, -⟩
    · cases heq
      exact ⟨by simp, .inl rfl⟩
    · cases heq
  | some contract =>
    rw [hget] at h
    rcases h with heq | ⟨nexts, heq, he⟩
    · cases heq
    · cases heq
      obtain ⟨key, hkey, hfind⟩ := List.mem_map.mp he
      cases hid : linker.find key (some a.version) with
      | some id => simp [hid] at hfind
      | none =>
        simp only [hid, Except.error.injEq] at hfind
        refine ⟨?_, .inr ⟨_, _, hfind.symm⟩⟩
        rintro ⟨contract', heq, hall⟩
        cases heq
        have hsome := hall key ((order.mem_toList _ key).mp hkey)
        rw [hid] at hsome
        cases hsome

theorem resolved_of_not_fails (h : ∀ e, ¬ Fails (linker.dependencies order) a e) :
    linker.Resolved a := by
  unfold Fails dependencies at h
  cases hget : linker.contracts.lookup a with
  | none => exact absurd (.inl (by rw [hget])) (h .missingTargetArtifact)
  | some contract =>
    refine ⟨contract, hget, fun key hkey => ?_⟩
    by_contra hnone
    rw [Option.not_isSome_iff_eq_none] at hnone
    refine h (.missingLibraryArtifact key.1 key.2) (.inr ⟨_, by rw [hget], ?_⟩)
    refine List.mem_map.mpr ⟨key, (order.mem_toList _ key).mpr hkey, ?_⟩
    simp only [hnone]

/-- The search ends. -/
theorem collectDependencies_ne_none (targets : List (ArtifactId ν ω)) :
    linker.collectDependencies order targets ≠ none := by
  have hnodes : ∀ a b, Next (linker.dependencies order) a b →
      b ∈ linker.contracts.keys.toFinset := by
    intro a b hnext
    obtain ⟨contract, -, key, -, hfind⟩ := next_dependencies_iff.mp hnext
    exact List.mem_toFinset.mpr (mem_keys_of_find hfind)
  have hcard : linker.contracts.keys.toFinset.card ≤ linker.contracts.keys.length :=
    List.toFinset_card_le _
  rw [AList.keys, List.keys, List.length_map] at hcard
  exact visitFrom_ne_none hnodes (Nat.lt_succ_of_le hcard)

variable {targets : List (ArtifactId ν ω)} {needed : Finset (ArtifactId ν ω)}

section

variable (h : linker.collectDependencies order targets = some (.ok needed))
include h

/-- What is collected is what can be reached, and everything met on the way is resolved. -/
theorem collectDependencies_ok :
    (∀ id, id ∈ needed ↔ ∃ target ∈ targets, linker.Reaches target id) ∧
      (∀ id ∈ needed, linker.Resolved id) ∧ ∀ target ∈ targets, linker.Resolved target := by
  obtain ⟨hmem, hclosed, htargets⟩ := visitFrom_eq Closed.empty h
  have hnext : Next (linker.dependencies order) = linker.Refers := by
    funext a b
    exact propext next_dependencies_iff
  refine ⟨fun id => ?_, fun id hid => ?_, fun target htarget => ?_⟩
  · rw [hmem, hnext]
    simp [Reaches]
  · exact resolved_of_not_fails (hclosed.clean id hid)
  · exact resolved_of_not_fails (htargets target htarget)

/-- Every walked id is needed, and the other way round. -/
theorem mem_inOrder :
    id ∈ linker.inOrder needed ↔ ∃ target ∈ targets, linker.Reaches target id := by
  rw [inOrder, List.mem_filter, decide_eq_true_iff, (collectDependencies_ok h).1 id]
  refine and_iff_right_of_imp ?_
  rintro ⟨target, -, hreach⟩
  obtain ⟨b, -, hlast⟩ := Relation.TransGen.tail'_iff.mp hreach
  obtain ⟨contract, -, key, -, hfind⟩ := hlast
  exact mem_keys_of_find hfind

end

/-- If the search fails, an artifact is missing. -/
theorem collectDependencies_error {e : LinkerError}
    (h : linker.collectDependencies order targets = some (.error e)) :
    (∃ target ∈ targets, ∃ id, Relation.ReflTransGen linker.Refers target id ∧
      ¬ linker.Resolved id) ∧
      (e = .missingTargetArtifact ∨ ∃ file name, e = .missingLibraryArtifact file name) := by
  obtain ⟨target, htarget, id, hreach, hfails⟩ := visitFrom_error h
  have hnext : Next (linker.dependencies order) = linker.Refers := by
    funext a b
    exact propext next_dependencies_iff
  obtain ⟨hnot, herror⟩ := fails_dependencies hfails
  rw [hnext] at hreach
  exact ⟨⟨target, htarget, id, hreach, hnot⟩, herror⟩

end

/-! ### Linking with all recorded addresses

One placeholder after the other gets the address recorded for it, so in the end only those without a
recorded address are left. -/

/-- A code with one recorded address put in. -/
def linkText (addresses : Addresses τ) (code : κ) (entry : Sigma fun _ : LibKey => τ) : κ :=
  match addresses.fromStr entry.2 with
  | some address => CompactBytecode.link code entry.1 address
  | none => code

/-- A code with all recorded addresses put in. -/
def linkCode (addresses : Addresses τ) (libraries : Libraries τ) (code : κ) : κ :=
  libraries.entries.foldl (linkText addresses) code

/-- A contract with all recorded addresses put in. -/
def linkContract (addresses : Addresses τ) (libraries : Libraries τ) (contract : Contract κ) :
    Contract κ where
  bytecode := contract.bytecode.map (linkCode addresses libraries)
  deployedBytecode := contract.deployedBytecode.map (linkCode addresses libraries)

section

open CompactBytecode (linkReferences_link link_of_notMem link_comm isUnlinked_iff)

variable {addresses : Addresses τ} {libraries : Libraries τ} {address : Address} {code : κ}
  {entries : List (Sigma fun _ : LibKey => τ)}

omit [DecidableEq ν] [DecidableEq ω] in
theorem linkText_eq {text : τ} (haddress : addresses.fromStr text = some address) (code : κ) :
    linkText addresses code ⟨key, text⟩ = CompactBytecode.link code key address := by
  simp only [linkText, haddress]

/-- A reference is left exactly if no address is recorded for it. -/
theorem mem_linkReferences_foldl
    (hvalid : ∀ entry ∈ entries, ∃ address, addresses.fromStr entry.2 = some address) :
    key ∈ CompactBytecode.linkReferences (entries.foldl (linkText addresses) code) ↔
      key ∈ CompactBytecode.linkReferences code ∧ key ∉ entries.keys := by
  induction entries generalizing code with
  | nil => simp [List.keys]
  | cons entry rest ih =>
    obtain ⟨key', text⟩ := entry
    obtain ⟨⟨address, haddress⟩, hrest⟩ := List.forall_mem_cons.mp hvalid
    rw [List.foldl_cons, ih hrest, linkText_eq haddress, linkReferences_link, Finset.mem_erase,
      List.keys_cons, List.mem_cons, not_or, and_comm (a := key ≠ key'), and_assoc]

theorem mem_linkReferences_linkCode (hvalid : libraries.Valid addresses) :
    key ∈ CompactBytecode.linkReferences (linkCode addresses libraries code) ↔
      key ∈ CompactBytecode.linkReferences code ∧ libraries.lookup key = none := by
  rw [linkCode, mem_linkReferences_foldl hvalid.exists_fromStr, AList.lookup_eq_none]
  rfl

/-- An address that is not recorded may be put in before those that are. -/
theorem link_foldl (hkey : key ∉ entries.keys) :
    CompactBytecode.link (entries.foldl (linkText addresses) code) key address =
      entries.foldl (linkText addresses) (CompactBytecode.link code key address) := by
  induction entries generalizing code with
  | nil => rfl
  | cons entry rest ih =>
    obtain ⟨key', text⟩ := entry
    rw [List.keys_cons, List.mem_cons, not_or] at hkey
    rw [List.foldl_cons, List.foldl_cons, ih hkey.2]
    congr 1
    cases haddress : addresses.fromStr text with
    | none => simp only [linkText, haddress]
    | some address' =>
      rw [linkText_eq haddress, linkText_eq haddress]
      exact link_comm code key' address' key address fun heq => hkey.1 heq.symm

/-- One that is recorded makes no difference if it is put in before. -/
theorem foldl_link {text : τ} (hentry : ⟨key, text⟩ ∈ entries)
    (haddress : addresses.fromStr text = some address) (hnodup : entries.NodupKeys) :
    entries.foldl (linkText addresses) (CompactBytecode.link code key address) =
      entries.foldl (linkText addresses) code := by
  induction entries generalizing code with
  | nil => cases hentry
  | cons entry rest ih =>
    obtain ⟨hfirst, hrest⟩ := List.nodupKeys_cons.mp hnodup
    rw [List.foldl_cons, List.foldl_cons]
    rcases List.mem_cons.mp hentry with rfl | hmem
    · rw [linkText_eq haddress, linkText_eq haddress, link_of_notMem]
      rw [linkReferences_link]
      exact Finset.notMem_erase key _
    · have hne : key ≠ entry.1 := fun heq => hfirst (heq ▸ List.mem_keys_of_mem hmem)
      have hcomm : linkText addresses (CompactBytecode.link code key address) entry =
          CompactBytecode.link (linkText addresses code entry) key address := by
        unfold linkText
        split
        · exact link_comm code key address _ _ hne
        · rfl
      rw [hcomm, ih hmem hrest]

/-- A code without references stays as it is. -/
theorem foldl_linkText_of_notMem (h : ∀ key, key ∉ CompactBytecode.linkReferences code) :
    entries.foldl (linkText addresses) code = code := by
  induction entries with
  | nil => rfl
  | cons entry rest ih =>
    have hsame : linkText addresses code entry = code := by
      unfold linkText
      split
      · exact link_of_notMem code _ _ (h entry.1)
      · rfl
    rw [List.foldl_cons, hsame, ih]

/-- A linked code does not change when more addresses are recorded. -/
theorem linkCode_eq_of_extends (hvalid : libraries.Valid addresses) {libraries' : Libraries τ}
    (hextends : ∀ key text, libraries.lookup key = some text → libraries'.lookup key = some text)
    (hlinked : CompactBytecode.isUnlinked (linkCode addresses libraries code) = false) :
    linkCode addresses libraries' code = linkCode addresses libraries code := by
  have hnone : ∀ key, key ∉ CompactBytecode.linkReferences (linkCode addresses libraries code) := by
    intro key hkey
    rw [(isUnlinked_iff _).mpr ⟨key, hkey⟩] at hlinked
    cases hlinked
  -- all that is recorded first is recorded in the end
  have hfirst : ∀ entries : List (Sigma fun _ : LibKey => τ), (∀ entry ∈ entries,
      entry ∈ libraries.entries) → ∀ code : κ, linkCode addresses libraries'
        (entries.foldl (linkText addresses) code) = linkCode addresses libraries' code := by
    intro entries
    induction entries with
    | nil => exact fun _ _ => rfl
    | cons entry rest ih =>
      intro hmem code
      obtain ⟨address, haddress⟩ := hvalid.exists_fromStr entry (hmem entry List.mem_cons_self)
      have hentry : entry ∈ libraries'.entries := AList.mem_lookup_iff.mp
        (hextends _ _ (AList.mem_lookup_iff.mpr (hmem entry List.mem_cons_self)))
      rw [List.foldl_cons, ih fun e he => hmem e (List.mem_cons_of_mem _ he)]
      rw [linkText_eq haddress]
      exact foldl_link hentry haddress libraries'.nodupKeys
  rw [← hfirst libraries.entries (fun _ h => h) code]
  exact foldl_linkText_of_notMem hnone

/-- Putting in one more address. -/
theorem link_linkCode (hnone : libraries.lookup key = none) :
    CompactBytecode.link (linkCode addresses libraries code) key address =
      linkCode addresses (AList.insert key (addresses.toChecksum address) libraries) code := by
  have hkey : key ∉ libraries := AList.lookup_eq_none.mp hnone
  rw [AList.insert_of_notMem hkey, linkCode, link_foldl hkey, linkCode, List.foldl_cons,
    linkText_eq (addresses.fromStr_toChecksum address)]

/-- Linking one library after the other links all of them. -/
theorem foldlM_linkEntry {entries : List (Sigma fun _ : LibKey => τ)}
    (hvalid : ∀ entry ∈ entries, ∃ address, addresses.fromStr entry.2 = some address)
    (contract : Contract κ) :
    entries.foldlM (linkEntry addresses) contract =
      .ok ⟨contract.bytecode.map (entries.foldl (linkText addresses)),
        contract.deployedBytecode.map (entries.foldl (linkText addresses))⟩ := by
  induction entries generalizing contract with
  | nil =>
    simp only [List.foldlM_nil, List.foldl_nil, Option.map_id']
    rfl
  | cons entry rest ih =>
    obtain ⟨⟨address, haddress⟩, hrest⟩ := List.forall_mem_cons.mp hvalid
    rw [List.foldlM_cons]
    simp only [linkEntry, haddress]
    change rest.foldlM (linkEntry addresses) (contract.link entry.1 address) = _
    rw [ih hrest]
    simp only [Contract.link, Option.map_map, Function.comp_def, List.foldl_cons, linkText,
      haddress]

variable (hvalid : libraries.Valid addresses)
include hvalid

variable {contract : Contract κ}

theorem link_eq (hget : linker.contracts.lookup id = some contract) :
    linker.link addresses id libraries = .ok (linkContract addresses libraries contract) := by
  rw [link, hget]
  exact foldlM_linkEntry hvalid.exists_fromStr contract

/-- References for which an address is recorded are gone. -/
theorem mem_linkReferences_linkContract :
    key ∈ (linkContract addresses libraries contract).linkReferences ↔
      key ∈ contract.linkReferences ∧ libraries.lookup key = none := by
  obtain ⟨creation, deployed⟩ := contract
  cases creation <;> cases deployed <;>
    simp [Contract.linkReferences, linkContract, mem_linkReferences_linkCode hvalid, or_and_right]

/-- An artifact is linked once the libraries it refers to have addresses. -/
theorem linked_of_refers (hget : linker.contracts.lookup id = some contract)
    (hresolved : linker.Resolved id)
    (hrecorded : ∀ b, linker.Refers id b → libraries.lookup (linker.libPath b) ≠ none) :
    (linkContract addresses libraries contract).Linked := by
  refine Contract.linked_iff.mpr fun key hkey => ?_
  obtain ⟨href, hnone⟩ := (mem_linkReferences_linkContract hvalid).mp hkey
  obtain ⟨contract', hget', hall⟩ := hresolved
  cases hget.symm.trans hget'
  obtain ⟨b, hb⟩ := Option.isSome_iff_exists.mp (hall key href)
  refine hrecorded b ⟨contract, hget, key, href, hb⟩ ?_
  rw [libPath_of_find hb]
  exact hnone

end

end Linker

end

/-! ## An instance -/

/-- A part of a `BytecodeObject`. -/
inductive Piece where
  | bytes (bytes : List UInt8)
  | placeholder (key : LibKey)
deriving DecidableEq

/-- The key of a placeholder. -/
def Piece.libKey : Piece → Option LibKey
  | .bytes _ => none
  | .placeholder key => some key

/-- A placeholder with an address in its place, if it is one of this library. -/
def Piece.link (key : LibKey) (address : Address) (piece : Piece) : Piece :=
  if piece.libKey = some key then .bytes (beBytes 20 address.toNat) else piece

theorem Piece.libKey_link {key : LibKey} {address : Address} {piece : Piece} :
    (piece.link key address).libKey = if piece.libKey = some key then none else piece.libKey := by
  unfold link
  split <;> rfl

/-- A code in pieces. -/
abbrev Code := List Piece

instance : CompactBytecode Code where
  linkReferences code := (code.filterMap Piece.libKey).toFinset
  link code key address := code.map (Piece.link key address)
  isUnlinked code := code.any fun piece => piece.libKey.isSome
  bytes code := code.foldr
    (fun piece rest =>
      match piece with
      | .bytes bytes => rest.map (bytes ++ ·)
      | .placeholder _ => none)
    (some [])
  linkReferences_link code key address := by
    ext key'
    simp only [List.filterMap_map, List.mem_toFinset, List.mem_filterMap, Finset.mem_erase,
      Function.comp_def, Piece.libKey_link]
    grind
  link_of_notMem code key address h := by
    refine (List.map_congr_left fun piece hpiece => if_neg fun heq => h ?_).trans (List.map_id code)
    exact List.mem_toFinset.mpr (List.mem_filterMap.mpr ⟨piece, hpiece, heq⟩)
  link_comm code key address key' address' hne := by
    simp only [List.map_map]
    refine List.map_congr_left fun piece _ => ?_
    simp only [Function.comp_apply, Piece.link, apply_ite Piece.libKey]
    grind [Piece.libKey]
  isUnlinked_iff code := by
    simp [Option.isSome_iff_exists, List.mem_filterMap]
    grind
  bytes_eq_none_iff code := by
    induction code with
    | nil => simp
    | cons piece rest ih =>
      cases piece with
      | bytes bs => simpa [Piece.libKey] using ih
      | placeholder key => simp [Piece.libKey]

/-- Addresses as their own texts. -/
def plainAddresses : Addresses Address where
  fromStr := some
  toChecksum := id
  fromStr_toChecksum := fun _ => rfl
  create := fun sender nonce => sender + nonce.toBitVec.setWidth 160
  create2FromCode :=
    fun sender salt code => sender + salt.setWidth 160 + BitVec.ofNat 160 code.length
  withStrippedFilePrefixes := fun libraries _ => libraries
  exists_of_stripped := fun _ _ key _ h => ⟨key, h⟩

/-- References by file and then by name. -/
def byFile : IterOrder LibKey :=
  IterOrder.sortedBy (fun key => (toLex key : Path ×ₗ String)) toLex.injective

end BaseAnvil.Linking
