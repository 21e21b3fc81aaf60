import BaseAnvil.Linking.Linker

/-!
# BaseAnvil.Linking.Nonce

Linking with the addresses that the next transactions of a sender create contracts at
(`link_with_nonce_or_address`).

All libraries that can be reached from the targets are needed. They are walked in the order of their
ids, and each that has no address yet gets the next one. Whether it has one is looked up under its
path and name; but which artifact a reference resolves to also depends on the version of the
compiler. So of two artifacts of different versions of one library only the first is deployed, and
the contracts of the other version are linked with it: the addresses are right exactly if this does
not happen (`complete_iff_distinct`).
-/

namespace BaseAnvil.Linking

open Lib Pool

/-- The variables of `link_with_nonce_or_address` while it gives out addresses. -/
structure Plan (ν ω τ : Type) where
  libraries : Libraries τ
  libsToDeploy : List (ArtifactId ν ω × Address)
  nonce : UInt64

namespace Linker

variable {ν ω κ τ : Type}

/-- Give out the next address if there is none yet. -/
def assign (addresses : Addresses τ) (linker : Linker ν ω κ) (sender : Address) (plan : Plan ν ω τ)
    (id : ArtifactId ν ω) : Plan ν ω τ :=
  match plan.libraries.lookup (linker.libPath id) with
  | some _ => plan
  | none =>
    let address := addresses.create sender plan.nonce
    { libraries := plan.libraries.insert (linker.libPath id) (addresses.toChecksum address)
      libsToDeploy := plan.libsToDeploy ++ [(id, address)]
      nonce := plan.nonce + 1 }

/-- The variables after all needed libraries have an address. -/
def assignAll (addresses : Addresses τ) (linker : Linker ν ω κ) (sender : Address)
    (libraries : Libraries τ) (nonce : UInt64) (ids : List (ArtifactId ν ω)) : Plan ν ω τ :=
  ids.foldl (linker.assign addresses sender) ⟨libraries, [], nonce⟩

/-- The linked creation codes. It is a panic if there is none. -/
def linkedCodes [DecidableEq ν] [DecidableEq ω] [CompactBytecode κ] (addresses : Addresses τ)
    (linker : Linker ν ω κ) (libraries : Libraries τ) :
    List (ArtifactId ν ω × Address) → Option (Except LinkerError (List (List UInt8)))
  | [] => some (.ok [])
  | (id, _) :: rest =>
    match linker.link addresses id libraries with
    | .error e => some (.error e)
    | .ok contract =>
      match contract.getBytecodeBytes with
      | none => none
      | some code =>
        match linker.linkedCodes addresses libraries rest with
        | some (.ok codes) => some (.ok (code :: codes))
        | result => result

/-- `link_with_nonce_or_address`. -/
def linkWithNonceOrAddress [DecidableEq ν] [DecidableEq ω] [CompactBytecode κ]
    (order : IterOrder LibKey)
    (addresses : Addresses τ) (linker : Linker ν ω κ) (libraries : Libraries τ) (sender : Address)
    (nonce : UInt64) (targets : List (ArtifactId ν ω)) :
    Option (Except LinkerError (LinkOutput τ)) :=
  let libraries := addresses.withStrippedFilePrefixes libraries linker.root
  match linker.collectDependencies order targets with
  | none => none
  | some (.error e) => some (.error e)
  | some (.ok needed) =>
    let plan := linker.assignAll addresses sender libraries nonce (linker.inOrder needed)
    match linker.linkedCodes addresses plan.libraries plan.libsToDeploy with
    | none => none
    | some (.error e) => some (.error e)
    | some (.ok libsToDeploy) => some (.ok { libraries := plan.libraries, libsToDeploy })

/-! ## What giving out addresses keeps -/

/-- After the libraries `done` have been walked. -/
structure Assigned (addresses : Addresses τ) (linker : Linker ν ω κ) (sender : Address)
    (provided : Libraries τ) (nonce : UInt64) (done : List (ArtifactId ν ω)) (plan : Plan ν ω τ) :
    Prop where
  kept : ∀ key text, provided.lookup key = some text → plan.libraries.lookup key = some text
  valid : plan.libraries.Valid addresses
  counted : plan.nonce = nonce + UInt64.ofNat plan.libsToDeploy.length
  address : ∀ i id address, plan.libsToDeploy[i]? = some (id, address) →
    id ∈ done ∧ address = addresses.create sender (nonce + UInt64.ofNat i) ∧
      plan.libraries.lookup (linker.libPath id) = some (addresses.toChecksum address)
  recorded : ∀ id ∈ done, plan.libraries.lookup (linker.libPath id) ≠ none
  deployed : ∀ key, plan.libraries.lookup key ≠ none → provided.lookup key = none →
    ∃ deploy ∈ plan.libsToDeploy, linker.libPath deploy.1 = key
  distinct : (plan.libsToDeploy.map fun deploy => linker.libPath deploy.1).Nodup

variable {id : ArtifactId ν ω}

section

variable {addresses : Addresses τ} {linker : Linker ν ω κ} {sender : Address}
  {provided : Libraries τ} {nonce : UInt64}

theorem Assigned.start (hvalid : provided.Valid addresses) :
    Assigned addresses linker sender provided nonce [] ⟨provided, [], nonce⟩ where
  kept := fun _ _ h => h
  valid := hvalid
  counted := by simp
  address := by simp
  recorded := by simp
  deployed := fun key hsome hnone => absurd hnone hsome
  distinct := List.nodup_nil

section

variable {done : List (ArtifactId ν ω)} {plan : Plan ν ω τ}
  (h : Assigned addresses linker sender provided nonce done plan)
include h

/-- A library that is deployed has the address for its place. -/
theorem Assigned.lookup_libPath {i : Nat} (hi : (plan.libsToDeploy.map Prod.fst)[i]? = some id) :
    id ∈ done ∧ plan.libraries.lookup (linker.libPath id) =
      some (addresses.toChecksum (addresses.create sender (nonce + UInt64.ofNat i))) := by
  rw [List.getElem?_map, Option.map_eq_some_iff] at hi
  obtain ⟨⟨id', address⟩, hdeploy, rfl⟩ := hi
  obtain ⟨hdone, rfl, htext⟩ := h.address i id' address hdeploy
  exact ⟨hdone, htext⟩

/-- No two libraries that are deployed have the same path and name. -/
theorem Assigned.eq_of_libPath_eq {a b : ArtifactId ν ω}
    (ha : a ∈ plan.libsToDeploy.map Prod.fst) (hb : b ∈ plan.libsToDeploy.map Prod.fst)
    (hsame : linker.libPath a = linker.libPath b) : a = b := by
  obtain ⟨deploy, hmem, rfl⟩ := List.mem_map.mp ha
  obtain ⟨deploy', hmem', rfl⟩ := List.mem_map.mp hb
  exact congrArg Prod.fst (List.inj_on_of_nodup_map h.distinct hmem hmem' hsame)

/-- A library without a provided address has the path and name of one that is deployed. -/
theorem Assigned.exists_index (hid : id ∈ done)
    (hfree : provided.lookup (linker.libPath id) = none) :
    ∃ (i : Nat) (b : ArtifactId ν ω), (plan.libsToDeploy.map Prod.fst)[i]? = some b ∧
      linker.libPath b = linker.libPath id := by
  obtain ⟨⟨b, address⟩, hdeploy, hpath⟩ := h.deployed _ (h.recorded id hid) hfree
  obtain ⟨i, hi⟩ := List.mem_iff_getElem?.mp (List.mem_map_of_mem hdeploy)
  exact ⟨i, b, hi, hpath⟩

theorem Assigned.skip (hsome : plan.libraries.lookup (linker.libPath id) ≠ none) :
    Assigned addresses linker sender provided nonce (done ++ [id]) plan where
  kept := h.kept
  valid := h.valid
  counted := h.counted
  address := by
    intro i id' address hi
    obtain ⟨hdone, hrest⟩ := h.address i id' address hi
    exact ⟨List.mem_append_left _ hdone, hrest⟩
  recorded := by
    intro id' hid'
    rcases List.mem_append.mp hid' with hid' | hid'
    · exact h.recorded id' hid'
    · rw [List.mem_singleton.mp hid']
      exact hsome
  deployed := h.deployed
  distinct := h.distinct

open Libraries

theorem Assigned.add (hnone : plan.libraries.lookup (linker.libPath id) = none) :
    Assigned addresses linker sender provided nonce (done ++ [id])
      { libraries := plan.libraries.insert (linker.libPath id)
          (addresses.toChecksum (addresses.create sender plan.nonce))
        libsToDeploy := plan.libsToDeploy ++ [(id, addresses.create sender plan.nonce)]
        nonce := plan.nonce + 1 } := by
  have hkeep : ∀ key text, plan.libraries.lookup key = some text →
      (plan.libraries.insert (linker.libPath id)
        (addresses.toChecksum (addresses.create sender plan.nonce))).lookup key = some text := by
    intro key text htext
    rw [lookup_insert_ite, if_neg]
    · exact htext
    · rintro rfl
      rw [hnone] at htext
      cases htext
  refine ⟨?_, ?_, ?_, ?_, ?_, ?_, ?_⟩
  · exact fun key text htext => hkeep key text (h.kept key text htext)
  · exact h.valid.insert _ _
  · rw [h.counted, List.length_append, List.length_singleton]
    simp [UInt64.add_assoc]
  · intro i id' address hi
    rcases Nat.lt_trichotomy i plan.libsToDeploy.length with hlt | heq | hgt
    · rw [List.getElem?_append_left hlt] at hi
      obtain ⟨hdone, haddress, htext⟩ := h.address i id' address hi
      exact ⟨List.mem_append_left _ hdone, haddress, hkeep _ _ htext⟩
    · subst heq
      rw [List.getElem?_concat_length] at hi
      cases hi
      exact ⟨by simp, by rw [h.counted], AList.lookup_insert _⟩
    · rw [List.getElem?_eq_none (by simp; omega)] at hi
      cases hi
  · intro id' hid'
    rw [lookup_insert_ite]
    split
    next => simp
    next hne =>
      rcases List.mem_append.mp hid' with hid' | hid'
      · exact h.recorded id' hid'
      · exact absurd (by rw [List.mem_singleton.mp hid']) hne
  · intro key hsome hfree
    rw [lookup_insert_ite] at hsome
    split at hsome
    next heq => exact ⟨_, List.mem_append_right _ List.mem_cons_self, heq.symm⟩
    next =>
      obtain ⟨deploy, hdeploy, hkey⟩ := h.deployed key hsome hfree
      exact ⟨deploy, List.mem_append_left _ hdeploy, hkey⟩
  · rw [List.map_append, List.map_singleton]
    refine List.Nodup.append h.distinct (List.nodup_singleton _) ?_
    -- everything given an address before has it recorded under its path
    intro key hkey hnew
    obtain ⟨⟨id', address⟩, hdeploy, rfl⟩ := List.mem_map.mp hkey
    obtain ⟨i, hi⟩ := List.mem_iff_getElem?.mp hdeploy
    obtain ⟨-, -, htext⟩ := h.address i id' address hi
    rw [List.mem_singleton.mp hnew, hnone] at htext
    cases htext

theorem Assigned.assign (id : ArtifactId ν ω) :
    Assigned addresses linker sender provided nonce (done ++ [id])
      (linker.assign addresses sender plan id) := by
  unfold Linker.assign
  cases htext : plan.libraries.lookup (linker.libPath id) with
  | none => exact h.add htext
  | some text => exact h.skip (by simp [htext])

end

theorem assigned_assignAll (hvalid : provided.Valid addresses) (ids : List (ArtifactId ν ω)) :
    Assigned addresses linker sender provided nonce ids
      (linker.assignAll addresses sender provided nonce ids) := by
  have hgen : ∀ (rest done : List (ArtifactId ν ω)) (plan : Plan ν ω τ),
      Assigned addresses linker sender provided nonce done plan →
      Assigned addresses linker sender provided nonce (done ++ rest)
        (rest.foldl (linker.assign addresses sender) plan) := by
    intro rest
    induction rest with
    | nil =>
      intro done plan h
      rwa [List.append_nil]
    | cons id rest ih =>
      intro done plan h
      rw [List.append_cons]
      exact ih _ _ (h.assign id)
  exact hgen ids [] _ (.start hvalid)

end

/-! ## The result -/

variable [DecidableEq ν] [DecidableEq ω] [CompactBytecode κ]

/-- The code an artifact is deployed with. -/
def HasCode (addresses : Addresses τ) (linker : Linker ν ω κ) (libraries : Libraries τ)
    (id : ArtifactId ν ω) (code : List UInt8) : Prop :=
  ∃ contract, linker.link addresses id libraries = .ok contract ∧ contract.Linked ∧
    contract.getBytecodeBytes = some code

/-- The artifacts that are given addresses. -/
def deploys (order : IterOrder LibKey) (addresses : Addresses τ) (linker : Linker ν ω κ)
    (libraries : Libraries τ) (sender : Address) (nonce : UInt64)
    (targets : List (ArtifactId ν ω)) : List (ArtifactId ν ω) :=
  match linker.collectDependencies order targets with
  | some (.ok needed) =>
    (linker.assignAll addresses sender
      (addresses.withStrippedFilePrefixes libraries linker.root) nonce
      (linker.inOrder needed)).libsToDeploy.map Prod.fst
  | _ => []

/-- What the output should be, where `deploys` are the artifacts whose codes are in it: every needed
library has an address, provided or its own, and all codes are linked with these. -/
structure Complete (addresses : Addresses τ) (linker : Linker ν ω κ) (provided : Libraries τ)
    (sender : Address) (nonce : UInt64) (targets deploys : List (ArtifactId ν ω))
    (output : LinkOutput τ) : Prop where
  kept : ∀ key text, provided.lookup key = some text → output.libraries.lookup key = some text
  length : output.libsToDeploy.length = deploys.length
  deployed : ∀ (i : Nat) id code, deploys[i]? = some id → output.libsToDeploy[i]? = some code →
    linker.HasCode addresses output.libraries id code ∧
      output.libraries.lookup (linker.libPath id) =
        some (addresses.toChecksum (addresses.create sender (nonce + UInt64.ofNat i)))
  reachable : ∀ target ∈ targets, ∀ id, linker.Reaches target id →
    provided.lookup (linker.libPath id) ≠ none ∨
      ∃ i, deploys[i]? = some id ∧ output.libraries.lookup (linker.libPath id) =
        some (addresses.toChecksum (addresses.create sender (nonce + UInt64.ofNat i)))
  linked : ∀ target ∈ targets, ∃ contract,
    linker.link addresses target output.libraries = .ok contract ∧ contract.Linked

section

variable {order : IterOrder LibKey} {addresses : Addresses τ} {linker : Linker ν ω κ}
  {libraries : Libraries τ} {sender : Address} {nonce : UInt64} {targets : List (ArtifactId ν ω)}
  {output : LinkOutput τ}

section

variable {codes : List (List UInt8)} {deploy : ArtifactId ν ω × Address}

/-- The codes are those of the artifacts, one by one. -/
theorem linkedCodes_cons {rest : List (ArtifactId ν ω × Address)}
    (h : linker.linkedCodes addresses libraries (deploy :: rest) = some (.ok codes)) :
    ∃ code codes', codes = code :: codes' ∧
      linker.linkedCodes addresses libraries rest = some (.ok codes') ∧
      ∃ contract, linker.link addresses deploy.1 libraries = .ok contract ∧
        contract.getBytecodeBytes = some code := by
  obtain ⟨id, address⟩ := deploy
  rw [linkedCodes] at h
  cases hlink : linker.link addresses id libraries with
  | error e => simp [hlink] at h
  | ok contract =>
    cases hbytes : contract.getBytecodeBytes with
    | none => simp [hlink, hbytes] at h
    | some code =>
      cases hrest : linker.linkedCodes addresses libraries rest with
      | none => simp [hlink, hbytes, hrest] at h
      | some result =>
        cases result with
        | error e => simp [hlink, hbytes, hrest] at h
        | ok codes' =>
          simp only [hlink, hbytes, hrest, Option.some.injEq, Except.ok.injEq] at h
          exact ⟨code, codes', h.symm, rfl, contract, rfl, hbytes⟩

variable {deploys : List (ArtifactId ν ω × Address)}
  (h : linker.linkedCodes addresses libraries deploys = some (.ok codes))
include h

theorem length_linkedCodes : codes.length = deploys.length := by
  induction deploys generalizing codes with
  | nil =>
    cases h
    rfl
  | cons deploy rest ih =>
    obtain ⟨code, codes', rfl, hrest, -⟩ := linkedCodes_cons h
    rw [List.length_cons, List.length_cons, ih hrest]

theorem linkedCodes_getElem? {i : Nat} {code : List UInt8} (hdeploy : deploys[i]? = some deploy)
    (hcode : codes[i]? = some code) :
    ∃ contract, linker.link addresses deploy.1 libraries = .ok contract ∧
      contract.getBytecodeBytes = some code := by
  induction deploys generalizing codes i with
  | nil => simp at hdeploy
  | cons first rest ih =>
    obtain ⟨code', codes', rfl, hrest, hfirst⟩ := linkedCodes_cons h
    cases i with
    | zero =>
      cases hdeploy
      cases hcode
      exact hfirst
    | succ i => exact ih hrest hdeploy hcode

end

/-- What a run that succeeds consists of. -/
theorem linkWithNonceOrAddress_ok
    (h : linker.linkWithNonceOrAddress order addresses libraries sender nonce targets =
      some (.ok output)) :
    ∃ needed, linker.collectDependencies order targets = some (.ok needed) ∧
      output.libraries = (linker.assignAll addresses sender
        (addresses.withStrippedFilePrefixes libraries linker.root) nonce
        (linker.inOrder needed)).libraries ∧
      linker.linkedCodes addresses output.libraries (linker.assignAll addresses sender
        (addresses.withStrippedFilePrefixes libraries linker.root) nonce
          (linker.inOrder needed)).libsToDeploy = some (.ok output.libsToDeploy) := by
  unfold linkWithNonceOrAddress at h
  cases hcollect : linker.collectDependencies order targets with
  | none => simp [hcollect] at h
  | some result =>
    cases result with
    | error e => simp [hcollect] at h
    | ok needed =>
      refine ⟨needed, rfl, ?_⟩
      simp only [hcollect] at h
      split at h
      next => cases h
      next => cases h
      next codes hcodes =>
        cases h
        exact ⟨rfl, hcodes⟩

variable {provided : Libraries τ}

/-- An artifact whose references are all needed is linked by the result. -/
theorem exists_linked {done : List (ArtifactId ν ω)} {plan : Plan ν ω τ}
    (hplan : Assigned addresses linker sender provided nonce done plan)
    (hresolved : linker.Resolved id) (hneeded : ∀ b, linker.Refers id b → b ∈ done) :
    ∃ contract, linker.link addresses id plan.libraries = .ok contract ∧ contract.Linked := by
  have hget := hresolved
  obtain ⟨contract, hget, -⟩ := hget
  refine ⟨_, link_eq hplan.valid hget, linked_of_refers hplan.valid hget hresolved fun b hb => ?_⟩
  exact hplan.recorded b (hneeded b hb)

/-- So is a needed library, whose references are needed too. -/
theorem exists_linked_of_mem {needed : Finset (ArtifactId ν ω)} {plan : Plan ν ω τ}
    (hcollect : linker.collectDependencies order targets = some (.ok needed))
    (hplan : Assigned addresses linker sender provided nonce (linker.inOrder needed) plan)
    (hid : id ∈ linker.inOrder needed) :
    ∃ contract, linker.link addresses id plan.libraries = .ok contract ∧ contract.Linked := by
  have hneeded : id ∈ needed := of_decide_eq_true (List.mem_filter.mp hid).2
  refine exists_linked hplan ((collectDependencies_ok hcollect).2.1 id hneeded) fun b hb => ?_
  obtain ⟨target, htarget, hreach⟩ := (mem_inOrder hcollect).mp hid
  exact (mem_inOrder hcollect).mpr ⟨target, htarget, hreach.tail hb⟩

/-- **Linking with nonces.** The addresses of all needed libraries are right exactly if those that
get one of their own have distinct paths and names. -/
theorem complete_iff_distinct (hvalid : libraries.Valid addresses)
    (hok : linker.linkWithNonceOrAddress order addresses libraries sender nonce targets =
      some (.ok output)) :
    Complete addresses linker (addresses.withStrippedFilePrefixes libraries linker.root) sender
        nonce targets (linker.deploys order addresses libraries sender nonce targets) output ↔
      ∀ s ∈ targets, ∀ t ∈ targets, ∀ a b, linker.Reaches s a → linker.Reaches t b →
        (addresses.withStrippedFilePrefixes libraries linker.root).lookup (linker.libPath a) =
          none →
        linker.libPath a = linker.libPath b → a = b := by
  obtain ⟨needed, hcollect, hlibraries, hcodes⟩ := linkWithNonceOrAddress_ok hok
  have hplan := @assigned_assignAll _ _ _ _ addresses linker sender _ nonce
    (hvalid.withStrippedFilePrefixes linker.root) (linker.inOrder needed)
  obtain ⟨-, hneeded, htargets⟩ := collectDependencies_ok hcollect
  have hdeploys : linker.deploys order addresses libraries sender nonce targets =
      (linker.assignAll addresses sender
        (addresses.withStrippedFilePrefixes libraries linker.root) nonce
        (linker.inOrder needed)).libsToDeploy.map Prod.fst := by
    simp only [deploys, hcollect]
  rw [hdeploys]
  generalize linker.assignAll addresses sender
    (addresses.withStrippedFilePrefixes libraries linker.root) nonce
    (linker.inOrder needed) = plan at hplan hlibraries hcodes ⊢
  constructor
  · -- two with one path would both have been given an address
    intro h s hs t ht a b hsa htb hfree hsame
    have hmem : ∀ target ∈ targets, ∀ id, linker.Reaches target id →
        linker.libPath id = linker.libPath a → id ∈ plan.libsToDeploy.map Prod.fst := by
      intro target htarget id hreach hpath
      rcases h.reachable target htarget id hreach with hsome | ⟨i, hi, -⟩
      · exact absurd (hpath ▸ hfree) hsome
      · exact List.mem_of_getElem? hi
    exact hplan.eq_of_libPath_eq (hmem s hs a hsa rfl) (hmem t ht b htb hsame.symm) hsame
  · intro hdistinct
    refine ⟨?_, ?_, ?_, ?_, ?_⟩
    · exact hlibraries ▸ hplan.kept
    · rw [List.length_map, length_linkedCodes hcodes]
    · intro i id code hi hcode
      obtain ⟨hid, htext⟩ := hplan.lookup_libPath hi
      obtain ⟨contract, hlink, hlinked⟩ := exists_linked_of_mem hcollect hplan hid
      rw [List.getElem?_map, Option.map_eq_some_iff] at hi
      obtain ⟨⟨id', address⟩, hdeploy, rfl⟩ := hi
      obtain ⟨contract', hlink', hbytes⟩ := linkedCodes_getElem? hcodes hdeploy hcode
      rw [hlibraries] at hlink' ⊢
      cases hlink.symm.trans hlink'
      exact ⟨⟨contract, hlink, hlinked, hbytes⟩, htext⟩
    · intro target htarget id hreach
      by_cases hfree : (addresses.withStrippedFilePrefixes libraries linker.root).lookup
          (linker.libPath id) = none
      · right
        have hid := (mem_inOrder hcollect).mpr ⟨target, htarget, hreach⟩
        obtain ⟨i, b, hi, hpath⟩ := hplan.exists_index hid hfree
        obtain ⟨hb, htext⟩ := hplan.lookup_libPath hi
        obtain ⟨t, ht, htb⟩ := (mem_inOrder hcollect).mp hb
        obtain rfl : id = b := hdistinct target htarget t ht id b hreach htb hfree hpath.symm
        exact ⟨i, hi, hlibraries ▸ htext⟩
      · exact .inl hfree
    · intro target htarget
      rw [hlibraries]
      refine exists_linked hplan (htargets target htarget) fun b hb => ?_
      exact (mem_inOrder hcollect).mpr ⟨target, htarget, .single hb⟩

end

end Linker

def artifact (name : String) (version : Nat) : ArtifactId Nat Unit := ⟨[name], name, version, ()⟩

/-- The placeholder for a library. -/
def placeholder (name : String) : Piece := .placeholder ([name], name)

/-- The contracts `S` and `T` use the library `M`, which uses the library `L`, as `T` does too. -/
def shared : Linker Nat Unit Code where
  root := []
  contracts :=
    { entries :=
        [⟨artifact "L" 1, ⟨some [.bytes [1]], none⟩⟩,
          ⟨artifact "M" 1, ⟨some [.bytes [2], placeholder "L"], none⟩⟩,
          ⟨artifact "S" 1, ⟨some [placeholder "M"], none⟩⟩,
          ⟨artifact "T" 1, ⟨some [placeholder "L", placeholder "M"], none⟩⟩]
      nodupKeys := by simp [List.nodupKeys_cons, List.keys, artifact] }

/-- With one version, both libraries are deployed and their addresses recorded. -/
theorem complete_iff_distinct_shared :
    ∃ output, shared.linkWithNonceOrAddress byFile plainAddresses ∅ 7 3
        [artifact "S" 1, artifact "T" 1] = some (.ok output) ∧
      output.libsToDeploy = [[1], 2 :: beBytes 20 10] ∧
      Linker.Complete plainAddresses shared ∅ 7 3 [artifact "S" 1, artifact "T" 1]
        [artifact "L" 1, artifact "M" 1] output := by
  have hvalid : Libraries.Valid plainAddresses ∅ := fun key text h => by simp at h
  have hversion : ∀ a ∈ shared.contracts.keys, a.version = 1 := by decide
  obtain ⟨output, hok⟩ : ∃ output, shared.linkWithNonceOrAddress byFile plainAddresses ∅ 7 3
      [artifact "S" 1, artifact "T" 1] = some (.ok output) := ⟨_, rfl⟩
  refine ⟨output, hok, ?_, (Linker.complete_iff_distinct hvalid hok).mpr ?_⟩
  · cases hok
    rfl
  · intro s _ t _ a b hsa htb _ hpath
    exact Linker.eq_of_libPath_eq
      (fun a ha b hb => (hversion a ha).trans (hversion b hb).symm) hsa htb hpath

/-- The library `L` and the contract `T`, which uses it, compiled with versions 1 and 2. -/
def twoVersions : Linker Nat Unit Code where
  root := []
  contracts :=
    { entries :=
        [⟨artifact "L" 1, ⟨some [.bytes [1]], none⟩⟩, ⟨artifact "L" 2, ⟨some [.bytes [2]], none⟩⟩,
          ⟨artifact "T" 1, ⟨some [placeholder "L"], none⟩⟩,
          ⟨artifact "T" 2, ⟨some [placeholder "L"], none⟩⟩]
      nodupKeys := by simp [List.nodupKeys_cons, List.keys, artifact] }

/-- The contract of version 2 is linked with the library of version 1, and that of version 2 is not
deployed. -/
theorem not_complete :
    ¬ ∀ (order : IterOrder LibKey) (addresses : Addresses Address) (linker : Linker Nat Unit Code)
      (libraries : Libraries Address) (sender : Address) (nonce : UInt64)
      (targets : List (ArtifactId Nat Unit)) (output : LinkOutput Address),
      libraries.Valid addresses →
      linker.linkWithNonceOrAddress order addresses libraries sender nonce targets =
        some (.ok output) →
      Linker.Complete addresses linker
        (addresses.withStrippedFilePrefixes libraries linker.root) sender nonce targets
        (linker.deploys order addresses libraries sender nonce targets) output := by
  intro h
  have hvalid : Libraries.Valid plainAddresses ∅ := fun key text h => by simp at h
  have hcomplete := h byFile plainAddresses twoVersions ∅ 7 3 [artifact "T" 1, artifact "T" 2] _
    hvalid rfl
  have hreach : twoVersions.Reaches (artifact "T" 2) (artifact "L" 2) :=
    .single ⟨_, rfl, (["L"], "L"), by decide, rfl⟩
  rcases hcomplete.reachable _ (by simp) _ hreach with hsome | ⟨i, hi, -⟩
  · exact hsome rfl
  · have hdeploys : twoVersions.deploys byFile plainAddresses ∅ 7 3
        [artifact "T" 1, artifact "T" 2] = [artifact "L" 1] := rfl
    have hmem := List.mem_of_getElem? hi
    rw [hdeploys, List.mem_singleton] at hmem
    exact absurd hmem (by decide)

end BaseAnvil.Linking
