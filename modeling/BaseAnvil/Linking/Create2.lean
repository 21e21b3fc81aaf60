import BaseAnvil.Lib.Cycle
import BaseAnvil.Linking.Linker

/-!
# BaseAnvil.Linking.Create2

Linking with the addresses that `CREATE2` puts libraries at (`link_with_create2`).

Such an address depends on the code, so a library can be given its address only when all libraries
that its creation code refers to have theirs. The loop takes any library whose code has no
placeholder left, computes its address and puts it into the codes of the others. The codes that wait
are those of the artifacts with all recorded addresses put in (`Pending`), so a placeholder is left
in one exactly if it refers to another that waits; taking one that refers to none of them neither
opens nor closes a cycle, and if there is none to take there is a cycle (`BaseAnvil.Lib.Cycle`).
-/

namespace BaseAnvil.Linking

open Lib Pool Libraries Contract
open CompactBytecode (isUnlinked bytes bytes_eq_none_iff)

/-- A choice among the libraries that can be deployed. -/
structure Pick (ν ω κ : Type) [CompactBytecode κ] where
  index : List (ArtifactId ν ω × κ) → Option Nat
  linked : ∀ needed i, index needed = some i →
    ∃ entry, needed[i]? = some entry ∧ isUnlinked entry.2 = false
  found : ∀ needed, index needed = none → ∀ entry ∈ needed, isUnlinked entry.2 = true

/-- The choice of the source: the first one. -/
def Pick.first {ν ω κ : Type} [CompactBytecode κ] : Pick ν ω κ where
  index needed := needed.findIdx? fun entry => !isUnlinked entry.2
  linked := by
    intro needed i hi
    obtain ⟨hlt, htrue, -⟩ := List.findIdx?_eq_some_iff_getElem.mp hi
    exact ⟨_, List.getElem?_eq_getElem hlt, by simpa using htrue⟩
  found := by
    intro needed hnone entry hentry
    simpa using List.findIdx?_eq_none_iff.mp hnone entry hentry

namespace Linker

variable {ν ω κ τ : Type} [CompactBytecode κ]

/-- The loop of `link_with_create2`. -/
def create2Loop (addresses : Addresses τ) (linker : Linker ν ω κ) (pick : Pick ν ω κ)
    (sender : Address) (salt : B256) :
    Nat → List (ArtifactId ν ω × κ) → Libraries τ → List (List UInt8) →
      Option (Except LinkerError (LinkOutput τ))
  | 0, _, _, _ => none
  | fuel + 1, needed, libraries, libsToDeploy =>
    if needed.isEmpty then some (.ok { libraries, libsToDeploy })
    else
      match pick.index needed with
      | none => some (.error .cyclicDependency)
      | some index =>
        match needed[index]? with
        | none => none
        | some (id, bytecode) =>
          match bytes bytecode with
          | none => none
          | some code =>
            let address := addresses.create2FromCode sender salt code
            let key := linker.libPath id
            let rest := (swapRemove needed index).map fun entry =>
              (entry.1, CompactBytecode.link entry.2 key address)
            linker.create2Loop addresses pick sender salt fuel rest
              (libraries.insert key (addresses.toChecksum address)) (libsToDeploy ++ [code])

/-- The ids of the codes that wait. -/
def waiting (needed : List (ArtifactId ν ω × κ)) : Set (ArtifactId ν ω) :=
  {id | id ∈ needed.map Prod.fst}

variable {id : ArtifactId ν ω} {bytecode : κ}

omit [CompactBytecode κ] in
theorem mem_waiting {needed : List (ArtifactId ν ω × κ)} (h : (id, bytecode) ∈ needed) :
    id ∈ waiting needed :=
  List.mem_map.mpr ⟨_, h, rfl⟩

variable {needed : List (ArtifactId ν ω × κ)}

/-- The others have the same ids after an address has been put into their codes. -/
theorem map_fst_link (key : LibKey) :
    (needed.map fun entry => (entry.1, CompactBytecode.link entry.2 key address)).map Prod.fst =
      needed.map Prod.fst := by
  rw [List.map_map]
  rfl

theorem waiting_link (key : LibKey) :
    waiting (needed.map fun entry => (entry.1, CompactBytecode.link entry.2 key address)) =
      waiting needed := by
  unfold waiting
  rw [map_fst_link]

omit [CompactBytecode κ] in
/-- The ones that wait after `id` has been taken. -/
theorem waiting_of_perm {needed rest : List (ArtifactId ν ω × κ)}
    (hperm : needed.Perm ((id, bytecode) :: rest)) (hnodup : (needed.map Prod.fst).Nodup) :
    waiting rest = waiting needed \ {id} := by
  have hids := hperm.map Prod.fst
  rw [List.map_cons] at hids
  have hnot := (List.nodup_cons.mp (hids.nodup_iff.mp hnodup)).1
  ext a
  change a ∈ rest.map Prod.fst ↔ a ∈ needed.map Prod.fst ∧ a ≠ id
  rw [hids.mem_iff, List.mem_cons]
  constructor
  · exact fun ha => ⟨.inr ha, fun heq => hnot (heq ▸ ha)⟩
  · rintro ⟨heq | ha, hne⟩
    · exact absurd heq hne
    · exact ha

variable [DecidableEq ν] [DecidableEq ω]

/-- The creation code of a library, linked with the provided libraries. It is a panic if there is
none. -/
def providedCode (addresses : Addresses τ) (linker : Linker ν ω κ) (libraries : Libraries τ)
    (id : ArtifactId ν ω) : Option (ArtifactId ν ω × κ) :=
  match linker.link addresses id libraries with
  | .error _ => none
  | .ok contract => contract.bytecode.map fun code => (id, code)

/-- `link_with_create2`. -/
def linkWithCreate2 (order : IterOrder LibKey) (addresses : Addresses τ) (linker : Linker ν ω κ)
    (pick : Pick ν ω κ) (libraries : Libraries τ) (sender : Address) (salt : B256)
    (target : ArtifactId ν ω) : Option (Except LinkerError (LinkOutput τ)) :=
  let libraries := addresses.withStrippedFilePrefixes libraries linker.root
  match linker.collectDependencies order [target] with
  | none => none
  | some (.error e) => some (.error e)
  | some (.ok needed) =>
    let unprovided := (linker.inOrder needed).filter fun id =>
      (libraries.lookup (linker.libPath id)).isNone
    match unprovided.mapM (linker.providedCode addresses libraries) with
    | none => none
    | some needed =>
      linker.create2Loop addresses pick sender salt (needed.length + 1) needed libraries []

/-- The creation code of an artifact refers to another one. -/
def CodeRefers (linker : Linker ν ω κ) (a b : ArtifactId ν ω) : Prop :=
  ∃ contract code, linker.contracts.lookup a = some contract ∧ contract.bytecode = some code ∧
    ∃ key ∈ CompactBytecode.linkReferences code, linker.find key (some a.version) = some b

/-! ## The codes that wait -/

/-- What holds of the codes that wait and the recorded libraries. -/
structure Pending (addresses : Addresses τ) (linker : Linker ν ω κ) (libraries : Libraries τ)
    (needed : List (ArtifactId ν ω × κ)) : Prop where
  valid : libraries.Valid addresses
  nodup : (needed.map Prod.fst).Nodup
  code : ∀ entry ∈ needed, ∃ contract code, linker.contracts.lookup entry.1 = some contract ∧
    contract.bytecode = some code ∧ entry.2 = linkCode addresses libraries code
  resolved : ∀ entry ∈ needed, linker.Resolved entry.1
  free : ∀ entry ∈ needed, libraries.lookup (linker.libPath entry.1) = none
  distinct : ∀ a ∈ waiting needed, ∀ b ∈ waiting needed, linker.libPath a = linker.libPath b → a = b
  known : ∀ a ∈ waiting needed, ∀ b, linker.CodeRefers a b →
    libraries.lookup (linker.libPath b) = none → b ∈ waiting needed

section

variable {addresses : Addresses τ} {linker : Linker ν ω κ} {libraries : Libraries τ}
  {rest : List (ArtifactId ν ω × κ)}

variable (h : Pending addresses linker libraries needed)
include h

/-- A placeholder is left exactly if the code refers to one that waits. -/
theorem Pending.isUnlinked_iff (hmem : (id, bytecode) ∈ needed) :
    isUnlinked bytecode = true ↔ ∃ b ∈ waiting needed, linker.CodeRefers id b := by
  obtain ⟨contract, code, hget, hcode, heq⟩ := h.code _ hmem
  rw [CompactBytecode.isUnlinked_iff]
  constructor
  · rintro ⟨key, hkey⟩
    rw [show bytecode = _ from heq, mem_linkReferences_linkCode h.valid] at hkey
    obtain ⟨hplace, hnone⟩ := hkey
    obtain ⟨contract', hget', hall⟩ := h.resolved _ hmem
    cases hget.symm.trans hget'
    have href : key ∈ contract.linkReferences :=
      mem_linkReferences.mpr ⟨code, .inl hcode, hplace⟩
    obtain ⟨b, hb⟩ := Option.isSome_iff_exists.mp (hall key href)
    have hrefers : linker.CodeRefers id b :=
      ⟨contract, code, hget, hcode, key, hplace, hb⟩
    refine ⟨b, h.known id (mem_waiting hmem) b hrefers ?_, hrefers⟩
    rw [libPath_of_find hb]
    exact hnone
  · rintro ⟨b, hb, contract', code', hget', hcode', key, hkey, hfind⟩
    cases hget.symm.trans hget'
    cases hcode.symm.trans hcode'
    obtain ⟨entry, hentry, rfl⟩ := List.mem_map.mp hb
    refine ⟨key, ?_⟩
    rw [show bytecode = _ from heq, mem_linkReferences_linkCode h.valid]
    exact ⟨hkey, libPath_of_find hfind ▸ h.free entry hentry⟩

/-- The codes that wait after the address of `id` has been put into them. -/
theorem Pending.deploy (hperm : needed.Perm ((id, bytecode) :: rest)) (address : Address) :
    Pending addresses linker
      (libraries.insert (linker.libPath id) (addresses.toChecksum address))
      (rest.map fun entry =>
        (entry.1, CompactBytecode.link entry.2 (linker.libPath id) address)) := by
  have hid : (id, bytecode) ∈ needed := hperm.mem_iff.mpr List.mem_cons_self
  have hrest : ∀ entry ∈ rest, entry ∈ needed :=
    fun entry hentry => hperm.mem_iff.mpr (List.mem_cons_of_mem _ hentry)
  have hwaiting := waiting_of_perm hperm h.nodup
  have hmem : id ∈ waiting needed := mem_waiting hid
  have hpath : ∀ a ∈ waiting needed \ {id}, linker.libPath a ≠ linker.libPath id :=
    fun a ha heq => ha.2 (h.distinct a ha.1 id hmem heq)
  refine ⟨h.valid.insert _ _, ?_, ?_, ?_, ?_, ?_, ?_⟩
  · rw [map_fst_link]
    exact ((hperm.map Prod.fst).nodup_iff.mp h.nodup).of_cons
  · intro entry hentry
    obtain ⟨old, hold, rfl⟩ := List.mem_map.mp hentry
    obtain ⟨contract, code, hget, hcode, heq⟩ := h.code old (hrest old hold)
    exact ⟨contract, code, hget, hcode, by rw [heq, link_linkCode (h.free _ hid)]⟩
  · intro entry hentry
    obtain ⟨old, hold, rfl⟩ := List.mem_map.mp hentry
    exact h.resolved old (hrest old hold)
  · intro entry hentry
    obtain ⟨old, hold, rfl⟩ := List.mem_map.mp hentry
    have hwait : old.1 ∈ waiting needed \ {id} := hwaiting ▸ List.mem_map_of_mem hold
    rw [lookup_insert_ite, if_neg (hpath _ hwait)]
    exact h.free old (hrest old hold)
  · rw [waiting_link, hwaiting]
    exact fun a ha b hb => h.distinct a ha.1 b hb.1
  · rw [waiting_link, hwaiting]
    intro a ha b href hnone
    rw [lookup_insert_ite] at hnone
    split at hnone
    next => cases hnone
    next hne =>
      refine ⟨h.known a ha.1 b href hnone, fun heq => hne ?_⟩
      rw [show b = id from heq]

end

/-! ## The loop -/

/-- The libraries `order` have been deployed: their codes are linked with what is recorded in the
end, each comes after those its creation code refers to, and what is recorded is where `CREATE2`
puts its code. -/
structure Deployed (addresses : Addresses τ) (linker : Linker ν ω κ) (sender : Address)
    (salt : B256) (libraries : Libraries τ) (order : List (ArtifactId ν ω))
    (codes : List (List UInt8)) : Prop where
  length : codes.length = order.length
  code : ∀ (i : Nat) id code, order[i]? = some id → codes[i]? = some code →
    (∃ contract, linker.link addresses id libraries = .ok contract ∧
      contract.getBytecodeBytes = some code) ∧
    libraries.lookup (linker.libPath id) =
      some (addresses.toChecksum (addresses.create2FromCode sender salt code))
  ordered : ∀ (i j : Nat) a b, order[i]? = some a → order[j]? = some b → linker.CodeRefers a b →
    j < i

section

variable {addresses : Addresses τ} {linker : Linker ν ω κ} {sender : Address} {salt : B256}
  {code : List UInt8}

theorem Deployed.cons {libraries : Libraries τ} {order : List (ArtifactId ν ω)}
    {codes : List (List UInt8)}
    (h : Deployed addresses linker sender salt libraries order codes)
    (hcode : ∃ contract, linker.link addresses id libraries = .ok contract ∧
      contract.getBytecodeBytes = some code)
    (htext : libraries.lookup (linker.libPath id) =
      some (addresses.toChecksum (addresses.create2FromCode sender salt code)))
    (hself : ¬ linker.CodeRefers id id) (hlater : ∀ b ∈ order, ¬ linker.CodeRefers id b) :
    Deployed addresses linker sender salt libraries (id :: order) (code :: codes) := by
  refine ⟨by simp [h.length], ?_, ?_⟩
  · intro i id' code' hid hcode'
    cases i with
    | zero =>
      cases hid
      cases hcode'
      exact ⟨hcode, htext⟩
    | succ i => exact h.code i id' code' hid hcode'
  · intro i j a b ha hb href
    cases i with
    | zero =>
      cases ha
      cases j with
      | zero =>
        cases hb
        exact absurd href hself
      | succ j => exact absurd href (hlater b (List.mem_of_getElem? hb))
    | succ i =>
      cases j with
      | zero => exact Nat.zero_lt_succ i
      | succ j => exact Nat.succ_lt_succ (h.ordered i j a b ha hb href)

variable {needed : List (ArtifactId ν ω × κ)} {libraries : Libraries τ} {pick : Pick ν ω κ}
  (h : Pending addresses linker libraries needed)
include h

/-- Without a code to take, there is a cycle. -/
theorem cyclic_of_index_none (hne : needed ≠ [])
    (hindex : pick.index needed = none) : Cyclic linker.CodeRefers (waiting needed) := by
  by_contra hacyclic
  have hnonempty : (waiting needed).Nonempty := by
    obtain ⟨entry, hentry⟩ := List.exists_mem_of_ne_nil needed hne
    exact ⟨entry.1, mem_waiting hentry⟩
  obtain ⟨a, ha, hsink⟩ := exists_sink (List.finite_toSet _) hnonempty hacyclic
  obtain ⟨⟨id, bytecode⟩, hentry, rfl⟩ := List.mem_map.mp ha
  obtain ⟨b, hb, href⟩ := (h.isUnlinked_iff hentry).mp (pick.found needed hindex _ hentry)
  exact hsink b hb href

/-- A linked code refers to none that waits. -/
theorem Pending.sink (hmem : (id, bytecode) ∈ needed) (hlinked : isUnlinked bytecode = false) :
    ∀ b ∈ waiting needed, ¬ linker.CodeRefers id b := by
  intro b hb href
  have hunlinked := (h.isUnlinked_iff hmem).mpr ⟨b, hb, href⟩
  rw [hlinked] at hunlinked
  cases hunlinked

/-- A library whose code was linked stays linked with the same code. -/
theorem Pending.link_of_kept (hmem : (id, bytecode) ∈ needed) (hbytes : bytes bytecode = some code)
    {libraries' : Libraries τ} (hvalid : libraries'.Valid addresses)
    (hkept : ∀ key text, libraries.lookup key = some text → libraries'.lookup key = some text) :
    ∃ contract, linker.link addresses id libraries' = .ok contract ∧
      contract.getBytecodeBytes = some code := by
  obtain ⟨contract, creation, hget, hcreation, heq⟩ := h.code _ hmem
  have hlinked : isUnlinked (linkCode addresses libraries creation) = false := by
    rw [← show bytecode = _ from heq, Bool.eq_false_iff]
    intro hunlinked
    rw [(bytes_eq_none_iff _).mpr hunlinked] at hbytes
    cases hbytes
  refine ⟨_, link_eq hvalid hget, ?_⟩
  unfold getBytecodeBytes linkContract
  rw [hcreation]
  change bytes (linkCode addresses libraries' creation) = some code
  rw [linkCode_eq_of_extends h.valid hkept hlinked, ← show bytecode = _ from heq, hbytes]

/-- What the loop returns. -/
theorem create2Loop_spec {fuel : Nat} {codes : List (List UInt8)} (hfuel : needed.length < fuel) :
    (Cyclic linker.CodeRefers (waiting needed) ∧
      linker.create2Loop addresses pick sender salt fuel needed libraries codes =
        some (.error .cyclicDependency)) ∨
    (¬ Cyclic linker.CodeRefers (waiting needed) ∧ ∃ output order later,
      linker.create2Loop addresses pick sender salt fuel needed libraries codes =
        some (.ok output) ∧
      output.libsToDeploy = codes ++ later ∧ order.Perm (needed.map Prod.fst) ∧
      Deployed addresses linker sender salt output.libraries order later ∧
      output.libraries.Valid addresses ∧
      ∀ key text, libraries.lookup key = some text → output.libraries.lookup key = some text) := by
  induction fuel generalizing needed libraries codes with
  | zero => omega
  | succ fuel ih =>
    rw [create2Loop]
    by_cases hne : needed = []
    · subst hne
      have hempty : waiting ([] : List (ArtifactId ν ω × κ)) = ∅ := by
        ext a
        simp [waiting]
      refine .inr ⟨hempty ▸ not_cyclic_empty, ⟨libraries, codes⟩, [], [], rfl, ?_, .nil, ?_,
        h.valid, fun _ _ hkept => hkept⟩
      · rw [List.append_nil]
      · exact ⟨rfl, by simp, by simp⟩
    · rw [if_neg (by simpa using hne)]
      cases hindex : pick.index needed with
      | none => exact .inl ⟨cyclic_of_index_none h hne hindex, rfl⟩
      | some index =>
        obtain ⟨⟨id, bytecode⟩, hget, hlinked⟩ := pick.linked needed index hindex
        have hmem := List.mem_of_getElem? hget
        have hperm := perm_cons_swapRemove hget
        have hsink := h.sink hmem hlinked
        cases hbytes : bytes bytecode with
        | none =>
          rw [bytes_eq_none_iff, show isUnlinked bytecode = false from hlinked] at hbytes
          cases hbytes
        | some code =>
          -- `id` is a sink, so the rest has a cycle exactly if all have
          have hnext := h.deploy hperm (addresses.create2FromCode sender salt code)
          have hcyclic := cyclic_diff_iff hsink
          rw [← waiting_of_perm hperm h.nodup] at hcyclic
          have hlength : (swapRemove needed index).length < fuel := by
            have hlen := hperm.length_eq
            rw [List.length_cons] at hlen
            omega
          have hloop := @ih _ _ hnext (codes ++ [code]) (by rwa [List.length_map])
          rw [waiting_link, hcyclic] at hloop
          simp only [hget, hbytes]
          refine hloop.imp_right ?_
          rintro ⟨hacyclic, output, order, later, hresult, hlater, horder, hdeployed, hvalid,
            hkept⟩
          rw [map_fst_link] at horder
          have hkeep : ∀ key text, libraries.lookup key = some text →
              output.libraries.lookup key = some text := by
            intro key text htext
            refine hkept key text ?_
            rw [lookup_insert_ite, if_neg]
            · exact htext
            · rintro rfl
              rw [h.free _ hmem] at htext
              cases htext
          refine ⟨hacyclic, output, id :: order, code :: later, hresult, ?_, ?_, ?_, hvalid, hkeep⟩
          · rw [hlater, List.append_assoc, List.singleton_append]
          · exact (horder.cons id).trans (hperm.map Prod.fst).symm
          · refine hdeployed.cons (h.link_of_kept hmem hbytes hvalid hkeep) ?_ ?_ ?_
            · exact hkept _ _ (AList.lookup_insert libraries)
            · exact hsink id (mem_waiting hmem)
            · intro b hb
              refine hsink b ((hperm.map Prod.fst).mem_iff.mpr (List.mem_cons_of_mem _ ?_))
              exact horder.mem_iff.mp hb

end

/-! ## The result -/

/-- The libraries that are needed and have no provided address. -/
def unprovided (linker : Linker ν ω κ) (provided : Libraries τ) (target : ArtifactId ν ω) :
    Set (ArtifactId ν ω) :=
  {id | linker.Reaches target id ∧ provided.lookup (linker.libPath id) = none}

/-- All artifacts that are met from `target` on are there. -/
def AllResolved (linker : Linker ν ω κ) (target : ArtifactId ν ω) : Prop :=
  ∀ id, Relation.ReflTransGen linker.Refers target id → linker.Resolved id

section

variable {order : IterOrder LibKey} {addresses : Addresses τ} {linker : Linker ν ω κ}
  {pick : Pick ν ω κ} {libraries : Libraries τ} {sender : Address} {salt : B256}
  {target : ArtifactId ν ω}

/-- The codes the loop starts with. -/
theorem mapM_providedCode (hvalid : libraries.Valid addresses) {ids : List (ArtifactId ν ω)}
    (hcode : ∀ id ∈ ids, ∃ contract code, linker.contracts.lookup id = some contract ∧
      contract.bytecode = some code) :
    ∃ needed, ids.mapM (linker.providedCode addresses libraries) = some needed ∧
      needed.map Prod.fst = ids ∧
      ∀ entry ∈ needed, ∃ contract code, linker.contracts.lookup entry.1 = some contract ∧
        contract.bytecode = some code ∧ entry.2 = linkCode addresses libraries code := by
  induction ids with
  | nil => exact ⟨[], rfl, rfl, by simp⟩
  | cons id ids ih =>
    obtain ⟨needed, hneeded, hids, hall⟩ :=
      ih fun id' hid' => hcode id' (List.mem_cons_of_mem _ hid')
    obtain ⟨contract, code, hget, hbytecode⟩ := hcode id List.mem_cons_self
    have hfirst : linker.providedCode addresses libraries id =
        some (id, linkCode addresses libraries code) := by
      simp [providedCode, link_eq hvalid hget, linkContract, hbytecode]
    refine ⟨(id, linkCode addresses libraries code) :: needed, ?_, by rw [List.map_cons, hids], ?_⟩
    · simp [hfirst, hneeded]
    · intro entry hentry
      rcases List.mem_cons.mp hentry with rfl | hentry
      · exact ⟨contract, code, hget, hbytecode, rfl⟩
      · exact hall entry hentry

theorem CodeRefers.refers {a b : ArtifactId ν ω} (h : linker.CodeRefers a b) :
    linker.Refers a b := by
  obtain ⟨contract, code, hget, hcode, key, hkey, hfind⟩ := h
  refine ⟨contract, hget, key, ?_, hfind⟩
  exact mem_linkReferences.mpr ⟨code, .inl hcode, hkey⟩

variable {ids : Finset (ArtifactId ν ω)}

/-- If dependencies can be collected, none is missing. -/
theorem allResolved_of_collect
    (hcollect : linker.collectDependencies order [target] = some (.ok ids)) :
    linker.AllResolved target := by
  obtain ⟨hids, hresolved, htargets⟩ := collectDependencies_ok hcollect
  intro id hreach
  rcases Relation.reflTransGen_iff_eq_or_transGen.mp hreach with rfl | hreach
  · exact htargets _ List.mem_cons_self
  · exact hresolved id ((hids id).mpr ⟨target, List.mem_cons_self, hreach⟩)

/-- The codes of the libraries without an address are there, and wait. -/
theorem exists_pending (hvalid : libraries.Valid addresses)
    (hversion : ∀ a ∈ linker.contracts.keys, ∀ b ∈ linker.contracts.keys, a.version = b.version)
    (hcode : ∀ id, linker.Reaches target id → ∃ contract code,
      linker.contracts.lookup id = some contract ∧ contract.bytecode = some code)
    (hresolved : linker.AllResolved target)
    (hcollect : linker.collectDependencies order [target] = some (.ok ids)) :
    ∃ needed,
      ((linker.inOrder ids).filter fun id => (libraries.lookup (linker.libPath id)).isNone).mapM
        (linker.providedCode addresses libraries) = some needed ∧
      waiting needed = linker.unprovided libraries target ∧
      Pending addresses linker libraries needed := by
  have hmem : ∀ id, id ∈ (linker.inOrder ids).filter
      (fun id => (libraries.lookup (linker.libPath id)).isNone) ↔
      id ∈ linker.unprovided libraries target := by
    intro id
    rw [List.mem_filter, mem_inOrder hcollect, Option.isNone_iff_eq_none]
    simp [unprovided]
  obtain ⟨needed, hneeded, hfst, hcodes⟩ :=
    mapM_providedCode hvalid fun id hid => hcode id ((hmem id).mp hid).1
  have hwaiting : waiting needed = linker.unprovided libraries target := by
    ext id
    rw [← hmem, ← hfst]
    rfl
  have hentry : ∀ entry ∈ needed, entry.1 ∈ linker.unprovided libraries target :=
    fun entry hentry => hwaiting ▸ mem_waiting hentry
  refine ⟨needed, hneeded, hwaiting, hvalid, ?_, hcodes, ?_, ?_, ?_, ?_⟩
  · rw [hfst]
    exact (linker.contracts.nodupKeys.filter _).filter _
  · exact fun entry h => hresolved _ (hentry entry h).1.to_reflTransGen
  · exact fun entry h => (hentry entry h).2
  · rw [hwaiting]
    exact fun a ha b hb => eq_of_libPath_eq hversion ha.1 hb.1
  · rw [hwaiting]
    exact fun a ha b href hnone => ⟨ha.1.tail href.refers, hnone⟩

/-- **Linking with `CREATE2`.** Linking ends. If an artifact is missing it says so, otherwise it
finds a cycle if there is one, and if there is none it deploys all libraries that have no address in
the order of their dependencies. This holds whichever code without placeholders the loop takes
next. -/
theorem linkWithCreate2_outcome (hvalid : libraries.Valid addresses)
    (hversion : ∀ a ∈ linker.contracts.keys, ∀ b ∈ linker.contracts.keys, a.version = b.version)
    (hcode : ∀ id, linker.Reaches target id → ∃ contract code,
      linker.contracts.lookup id = some contract ∧ contract.bytecode = some code) :
    (¬ linker.AllResolved target → ∃ e,
      linker.linkWithCreate2 order addresses pick libraries sender salt target = some (.error e) ∧
      (e = .missingTargetArtifact ∨ ∃ file name, e = .missingLibraryArtifact file name)) ∧
    (linker.AllResolved target →
      (linker.linkWithCreate2 order addresses pick libraries sender salt target =
          some (.error .cyclicDependency) ↔
        Cyclic linker.CodeRefers
          (linker.unprovided (addresses.withStrippedFilePrefixes libraries linker.root) target)) ∧
      (¬ Cyclic linker.CodeRefers
          (linker.unprovided (addresses.withStrippedFilePrefixes libraries linker.root) target) →
        ∃ output deployed,
          linker.linkWithCreate2 order addresses pick libraries sender salt target =
            some (.ok output) ∧
          deployed.Nodup ∧
          (∀ id, id ∈ deployed ↔
            id ∈ linker.unprovided
              (addresses.withStrippedFilePrefixes libraries linker.root) target) ∧
          Deployed addresses linker sender salt output.libraries deployed
            output.libsToDeploy)) := by
  have hprovided := hvalid.withStrippedFilePrefixes linker.root
  unfold linkWithCreate2
  cases hcollect : linker.collectDependencies order [target] with
  | none => exact absurd hcollect (collectDependencies_ne_none _)
  | some result =>
    cases result with
    | error e =>
      obtain ⟨⟨_, htarget, id, hreach, hnot⟩, herror⟩ := collectDependencies_error hcollect
      rw [List.mem_singleton.mp htarget] at hreach
      exact ⟨fun _ => ⟨e, rfl, herror⟩, fun hall => absurd (hall id hreach) hnot⟩
    | ok ids =>
      have hall := allResolved_of_collect hcollect
      refine ⟨fun hnot => absurd hall hnot, fun _ => ?_⟩
      obtain ⟨needed, hneeded, hwaiting, hpending⟩ :=
        exists_pending hprovided hversion hcode hall hcollect
      simp only [hneeded]
      have hloop := @create2Loop_spec _ _ _ _ _ _ _ addresses linker sender salt _ _ pick
        hpending _ [] (Nat.lt_succ_self _)
      rw [hwaiting] at hloop
      rcases hloop with ⟨hcyclic, hresult⟩ | ⟨hacyclic, output, deployed, later, hresult, hlater,
        hperm, hdeployed, -, -⟩
      · exact ⟨iff_of_true hresult hcyclic, fun hnot => absurd hcyclic hnot⟩
      · rw [List.nil_append] at hlater
        subst hlater
        refine ⟨iff_of_false (by simp [hresult]) hacyclic, fun _ => ?_⟩
        refine ⟨output, deployed, hresult, hperm.nodup_iff.mpr hpending.nodup, fun id => ?_,
          hdeployed⟩
        rw [hperm.mem_iff, ← hwaiting]
        rfl

end

end Linker

/-- The contract `T` uses the library `M`, which uses the library `L`. -/
def chained : Linker Nat Unit Code where
  root := []
  contracts :=
    { entries :=
        [⟨⟨["L"], "L", 1, ()⟩, ⟨some [.bytes [1]], none⟩⟩,
          ⟨⟨["M"], "M", 1, ()⟩, ⟨some [.bytes [2], .placeholder (["L"], "L")], none⟩⟩,
          ⟨⟨["T"], "T", 1, ()⟩, ⟨some [.placeholder (["M"], "M")], none⟩⟩]
      nodupKeys := by simp [List.nodupKeys_cons, List.keys] }

/-- `L` is deployed first, since the code of `M` needs its address. -/
theorem linkWithCreate2_outcome_chained :
    ∃ output deployed,
      chained.linkWithCreate2 byFile plainAddresses .first ∅ 7 3 ⟨["T"], "T", 1, ()⟩ =
        some (.ok output) ∧
      output.libsToDeploy = [[1], 2 :: beBytes 20 11] ∧ deployed.Nodup ∧
      (∀ id, id ∈ deployed ↔ id ∈ chained.unprovided
        (∅ : Libraries Address) ⟨["T"], "T", 1, ()⟩) ∧
      Linker.Deployed plainAddresses chained 7 3 output.libraries deployed output.libsToDeploy := by
  have hvalid : Valid plainAddresses ∅ := fun key text h => by simp at h
  have hkeys : ∀ id ∈ chained.contracts.keys, id.version = 1 ∧ ∃ contract code,
      chained.contracts.lookup id = some contract ∧ contract.bytecode = some code := by
    intro id hid
    have hcases :
        id = ⟨["L"], "L", 1, ()⟩ ∨ id = ⟨["M"], "M", 1, ()⟩ ∨ id = ⟨["T"], "T", 1, ()⟩ := by
      simpa [chained, AList.keys, List.keys] using hid
    rcases hcases with rfl | rfl | rfl <;> exact ⟨rfl, _, _, rfl, rfl⟩
  have houtcome := (@Linker.linkWithCreate2_outcome _ _ _ _ _ _ _ byFile plainAddresses chained
    .first ∅ 7 3 ⟨["T"], "T", 1, ()⟩ hvalid
    (fun a ha b hb => (hkeys a ha).1.trans (hkeys b hb).1.symm)
    fun id hid => ?_).2 (@Linker.allResolved_of_collect _ _ _ _ _ _ byFile _ _ _ rfl)
  · obtain ⟨output, hok⟩ : ∃ output, chained.linkWithCreate2 byFile plainAddresses .first ∅ 7 3
        ⟨["T"], "T", 1, ()⟩ = some (.ok output) := ⟨_, rfl⟩
    have hacyclic := houtcome.1.not.mp fun herr => nomatch hok.symm.trans herr
    obtain ⟨output', deployed, hok', hnodup, hmem, hdeployed⟩ := houtcome.2 hacyclic
    refine ⟨output', deployed, hok', ?_, hnodup, hmem, hdeployed⟩
    cases hok'
    rfl
  · obtain ⟨a, -, contract, -, key, -, hfind⟩ := Relation.TransGen.tail'_iff.mp hid
    exact (hkeys id (Linker.mem_keys_of_find hfind)).2

end BaseAnvil.Linking
