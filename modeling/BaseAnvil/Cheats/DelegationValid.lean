import BaseAnvil.Cheats.Delegation
import BaseAnvil.Lib.Run

/-!
# BaseAnvil.Cheats.DelegationValid

Whether the delegations of a script are valid on the chain.

The nonce of a delegation is taken from the local account of its authority. But a delegation that
goes with somebody else's transaction leaves this nonce as it is, while the one on the chain goes
up. And the nonce is signed for the broadcast that is active then, which need not be the one whose
transaction takes the delegation along.
-/

namespace BaseAnvil.Cheats.Delegation

open Lib SignedAuthorization TransactionRequest
open Pool (Address)

variable {S : Signatures}

/-! ### The chain -/

/-- An authorization is accepted if it has the nonce of its authority. -/
def SignedAuthorization.AcceptedBy (nonces : Address → Nat) (auth : SignedAuthorization S) : Prop :=
  ∃ authority, auth.recoverAuthority = some authority ∧ auth.inner.nonce = nonces authority

/-- The nonces after an authorization. -/
def authorize (nonces : Address → Nat) (auth : SignedAuthorization S) : Address → Nat :=
  match auth.recoverAuthority with
  | none => nonces
  | some authority => if auth.inner.nonce = nonces authority then bump nonces authority else nonces

/-- The authorizations of a list are all accepted, one after the other. -/
def AllAccepted : (Address → Nat) → List (SignedAuthorization S) → Prop
  | _, [] => True
  | nonces, auth :: auths => auth.AcceptedBy nonces ∧ AllAccepted (authorize nonces auth) auths

namespace TransactionRequest

variable (tx : TransactionRequest S)

def authorizations : List (SignedAuthorization S) := tx.authorizationList.getD []

/-- The nonces after a transaction: that of the sender is bumped first. -/
def replay (nonces : Address → Nat) : Address → Nat :=
  tx.authorizations.foldl authorize (bump nonces tx.sender)

def ValidFrom (nonces : Address → Nat) : Prop :=
  tx.nonce = nonces tx.sender ∧ AllAccepted (bump nonces tx.sender) tx.authorizations

end TransactionRequest

/-- The nonces after some transactions. -/
def replayAll (nonces : Address → Nat) (txs : List (TransactionRequest S)) : Address → Nat :=
  txs.foldl (fun nonces tx => tx.replay nonces) nonces

/-- Each transaction has the nonce of its sender, and all authorizations are accepted. -/
def ValidOnChain : (Address → Nat) → List (TransactionRequest S) → Prop
  | _, [] => True
  | nonces, tx :: txs => tx.ValidFrom nonces ∧ ValidOnChain (tx.replay nonces) txs

/-! ### Scripts that are in order -/

/-- A script that runs, with a record for each pending delegation: its authority, and who was
broadcasting when it was signed. -/
structure Script (S : Signatures) where
  state : State S
  signed : List (Address × Option Address)

/-- The broadcast that an event records a call for. -/
def State.records (self : State S) : Event → Option (Broadcast × CallInputs)
  | .call depth inputs => self.broadcast.bind fun broadcast =>
    if depth = broadcast.depth ∧ inputs.caller = broadcast.originalCaller ∧
        inputs.isStatic = false then
      some (broadcast, inputs)
    else none
  | _ => none

/-- The authority of a delegation that an event attaches. -/
def Event.signer (S : Signatures) : Event → Option Address
  | .cheatcode _ _ (.signAndAttachDelegation key _ _) => S.address key
  | _ => none

namespace Script

variable (config : Config) (self : Script S)

/-- The record of signed delegations after an event. -/
def signedAfter (event : Event) : List (Address × Option Address) :=
  if (self.state.records event).isSome then []
  else self.signed ++
    (event.signer S).toList.map fun signer => (signer, self.state.broadcast.map (·.newOrigin))

def step (event : Event) : Script S :=
  { state := self.state.apply config event, signed := self.signedAfter event }

/-- One step of a script. -/
def Steps (before : Script S) (event : Event) (after : Script S) : Prop :=
  before.step config event = after

/-- Where a script starts. -/
def initial (nonces : Address → Nat) (delegates : Address → Option Address) (wallets : Wallets)
    (txCaller : Address) : Script S :=
  { state := .initial nonces delegates wallets txCaller, signed := [] }

end Script

/-- How many of these delegations are by this authority. -/
def delegationsOf (authority : Address) (auths : List (SignedAuthorization S)) : Nat :=
  auths.countP fun auth => auth.recoverAuthority = some authority

/-- How many delegations by this account went with the transactions of others. -/
def foreignUses (account : Address) (txs : List (TransactionRequest S)) : Nat :=
  (txs.map fun tx =>
    if tx.sender = account then 0 else delegationsOf account tx.authorizations).sum

/-- A call that is recorded is in order if none of the sender's delegations went with the
transactions of others, and the pending delegations of each authority were signed for its nonces on
the chain. These are ahead of the local ones by the delegations that went with the transactions of
others, and for the sender by the transaction itself. The nonces that were signed are ahead by one
if the authority was broadcasting when the first of these delegations was signed. -/
def Script.InOrder (self : Script S) (event : Event) : Prop :=
  ∀ recorded, self.state.records event = some recorded →
    foreignUses recorded.1.newOrigin self.state.broadcastableTransactions = 0 ∧
    ∀ authority origin, self.signed.lookup authority = some origin →
      foreignUses authority self.state.broadcastableTransactions +
        (if authority = recorded.1.newOrigin then 1 else 0) =
          if origin = some authority then 1 else 0

/-! ### Lists of delegations -/

variable {auths : List (SignedAuthorization S)} {account : Address}

section

variable {auth : SignedAuthorization S}

theorem delegationsOf_cons :
    delegationsOf account (auth :: auths) =
      delegationsOf account auths + if auth.recoverAuthority = some account then 1 else 0 := by
  simp only [delegationsOf, List.countP_cons, decide_eq_true_eq]

theorem countDelegations_eq (nonce : Nat) :
    State.countDelegations account auths nonce = nonce + delegationsOf account auths := by
  induction auths generalizing nonce with
  | nil => rfl
  | cons auth auths ih =>
    have hstep : State.countDelegations account (auth :: auths) nonce =
        State.countDelegations account auths
          (if auth.recoverAuthority = some account then nonce + 1 else nonce) := rfl
    rw [hstep, ih, delegationsOf_cons]
    split <;> omega

theorem nextDelegationNonce_nil :
    nextDelegationNonce ([] : List (SignedAuthorization S)) account broadcast accountNonce =
      accountNonce + if broadcast.map (·.newOrigin) = some account then 1 else 0 := by
  cases broadcast with
  | none => rfl
  | some broadcast =>
    simp only [nextDelegationNonce, List.reverse_nil, List.find?_nil, Option.map_some,
      Option.some.injEq]
    split <;> rfl

theorem nextDelegationNonce_snoc :
    nextDelegationNonce (auths ++ [auth]) account broadcast accountNonce =
      if auth.recoverAuthority = some account then auth.inner.nonce + 1
      else nextDelegationNonce auths account broadcast accountNonce := by
  by_cases h : auth.recoverAuthority = some account
  · simp [nextDelegationNonce, h]
  · simp [nextDelegationNonce, h]

end

/-- A delegation is a ticket of its authority. -/
def SignedAuthorization.IsTicket (auth : SignedAuthorization S) (ticket : Address × Nat) : Prop :=
  auth.recoverAuthority = some ticket.1 ∧ auth.inner.nonce = ticket.2

variable {nonces : Address → Nat} {auth : SignedAuthorization S}

section

variable {tickets : List (Address × Nat)}
  (h : List.Forall₂ SignedAuthorization.IsTicket auths tickets)

theorem authorize_of_accepted {ticket : Address × Nat} (hticket : auth.IsTicket ticket)
    (haccepted : ticket.2 = nonces ticket.1) : authorize nonces auth = bump nonces ticket.1 := by
  simp only [authorize, hticket.1, hticket.2, haccepted, if_true]

include h

/-- The chain counts the tickets. -/
theorem allAccepted_iff : AllAccepted nonces auths ↔ Accepts nonces tickets := by
  induction h generalizing nonces with
  | nil => exact Iff.rfl
  | @cons auth ticket _ _ hticket _ ih =>
    have hfirst : auth.AcceptedBy nonces ↔ ticket.2 = nonces ticket.1 := by
      simp [AcceptedBy, hticket.1, hticket.2]
    rw [AllAccepted, Accepts, hfirst]
    refine and_congr_right fun haccepted => ?_
    rw [authorize_of_accepted hticket haccepted]
    exact ih

theorem foldl_authorize (haccepts : Accepts nonces tickets) :
    auths.foldl authorize nonces account = nonces account + uses account tickets := by
  induction h generalizing nonces with
  | nil => rfl
  | cons hticket _ ih =>
    rw [List.foldl_cons, authorize_of_accepted hticket haccepts.1, ih haccepts.2, bump_apply,
      uses_cons]
    omega

theorem delegationsOf_eq : delegationsOf account auths = uses account tickets := by
  induction h with
  | nil => rfl
  | cons hticket _ ih =>
    rw [delegationsOf_cons, uses_cons, ih, hticket.1]
    simp only [Option.some.injEq, eq_comm]

/-- The nonce to sign next, for tickets that some counters accept. -/
theorem nextDelegationNonce_eq (haccepts : Accepts nonces tickets) :
    nextDelegationNonce auths account broadcast accountNonce =
      if uses account tickets = 0 then
        accountNonce + if broadcast.map (·.newOrigin) = some account then 1 else 0
      else nonces account + uses account tickets := by
  -- The induction goes from the last delegation backwards, as the search does.
  have hreverse := List.rel_reverse h
  generalize hauths : auths.reverse = auths' at hreverse
  generalize htickets : tickets.reverse = tickets' at hreverse
  rw [List.reverse_eq_iff] at hauths htickets
  subst hauths htickets
  clear h
  induction hreverse with
  | nil =>
    rw [List.reverse_nil, List.reverse_nil, nextDelegationNonce_nil]
    rfl
  | @cons auth ticket auths' tickets' hticket _ ih =>
    rw [List.reverse_cons] at haccepts
    obtain ⟨hrest, hnumber⟩ := accepts_snoc.mp haccepts
    rw [List.reverse_cons, List.reverse_cons, nextDelegationNonce_snoc, uses_append, uses_cons,
      uses_nil, hticket.2]
    by_cases hkey : ticket.1 = account
    · subst hkey
      rw [if_pos hticket.1, if_pos rfl, hnumber, if_neg (by omega)]
      omega
    · have hother : auth.recoverAuthority ≠ some account := by simpa [hticket.1] using hkey
      rw [if_neg hother, if_neg (Ne.symm hkey)]
      exact ih hrest

end

/-! ### Steps -/

/-- What concerns the nonces is as before. -/
structure State.SameNonces (before after : State S) : Prop where
  nonces : after.nonces = before.nonces
  activeDelegations : after.activeDelegations = before.activeDelegations
  broadcastableTransactions : after.broadcastableTransactions = before.broadcastableTransactions

variable {authority : Address}

namespace State

variable {config : Config} {self after : State S} {event : Event}

theorem SameNonces.refl (self : State S) : self.SameNonces self := ⟨rfl, rfl, rfl⟩

variable {depth : Nat} {caller : Address} {singleCall : Bool}

theorem SameNonces.of_startBroadcast {newOrigin : Option Address}
    (h : self.startBroadcast depth caller newOrigin singleCall = .ok after) :
    self.SameNonces after := by
  unfold startBroadcast at h
  split at h
  · cases h
  · cases h
    exact ⟨rfl, rfl, rfl⟩

theorem SameNonces.of_broadcastKey {key : PrivateKey}
    (h : self.broadcastKey depth caller key singleCall = .ok after) : self.SameNonces after := by
  unfold broadcastKey at h
  split at h
  · cases h
  · rename_i signer _
    cases hstart : self.startBroadcast depth caller (some signer) singleCall with
    | error => simp [hstart, Except.map] at h
    | ok started =>
      have hsame := SameNonces.of_startBroadcast hstart
      simp only [hstart, Except.map, Except.ok.injEq] at h
      subst h
      exact ⟨hsame.nonces, hsame.activeDelegations, hsame.broadcastableTransactions⟩

theorem SameNonces.of_stopBroadcast (h : self.stopBroadcast = .ok after) :
    self.SameNonces after := by
  unfold stopBroadcast at h
  split at h
  · cases h
    exact ⟨rfl, rfl, rfl⟩
  · cases h

theorem sameNonces_setGasLimitType (isDynamic : Bool) :
    self.SameNonces (self.setGasLimitType isDynamic) := by
  unfold setGasLimitType
  split
  · exact ⟨rfl, rfl, rfl⟩
  · exact .refl self

theorem sameNonces_callEnd : self.SameNonces (self.callEnd depth) := by
  unfold callEnd
  split
  · exact .refl self
  · split
    · exact ⟨rfl, rfl, rfl⟩
    · exact .refl self

theorem sameNonces_call {inputs : CallInputs} (h : self.records (.call depth inputs) = none) :
    self.SameNonces (self.call config depth inputs) := by
  unfold call
  split
  · exact .refl self
  · rename_i broadcast hbroadcast
    split
    · rename_i hcond
      have hstatic : inputs.isStatic = true := by
        by_contra hstatic
        simp [records, hbroadcast, hcond, hstatic] at h
      simp only [hstatic, if_true]
      exact ⟨rfl, rfl, rfl⟩
    · exact ⟨rfl, rfl, rfl⟩

theorem writeDelegation_of_nextNonce (h : auth.IsTicket (authority, self.nextNonce authority)) :
    ∃ after, self.writeDelegation auth = .ok after ∧ self.SameNonces after := by
  simp only [writeDelegation, h.1, h.2, ne_eq, not_true_eq_false, if_false, Except.ok.injEq,
    exists_eq_left']
  exact ⟨rfl, rfl, rfl⟩

/-- Attaching a delegation does not fail: the nonce it is signed for is the one that is checked. -/
theorem apply_of_signer {signer : Address} (h : event.signer S = some signer) :
    ∃ auth, auth.IsTicket (signer, self.nextNonce signer) ∧
      (self.apply config event).nonces = self.nonces ∧
      (self.apply config event).activeDelegations = self.activeDelegations ++ [auth] ∧
      (self.apply config event).broadcastableTransactions = self.broadcastableTransactions := by
  unfold Event.signer at h
  split at h
  · rename_i depth caller key implementation crossChain
    let inner : Authorization :=
      { address := implementation
        nonce := self.nextNonce signer
        chainId := if crossChain then 0 else BitVec.ofNat 256 config.chainId.toNat }
    have hticket : IsTicket ⟨inner, S.sign key inner⟩
        (signer, self.nextNonce signer) := ⟨S.recover_sign key inner signer h, rfl⟩
    obtain ⟨after, hwrite, hsame⟩ := writeDelegation_of_nextNonce hticket
    refine ⟨⟨inner, S.sign key inner⟩, hticket, ?_⟩
    simp only [apply, applyCheatcode, signDelegation, h, Option.getD_none, if_true]
    rw [hwrite]
    exact ⟨hsame.nonces, congrArg (· ++ _) hsame.activeDelegations, hsame.broadcastableTransactions⟩
  · cases h

theorem apply_of_records {recorded : Broadcast × CallInputs}
    (h : self.records event = some recorded) :
    self.apply config event =
      { self.record config recorded.1 recorded.2 with
        txCaller := recorded.1.newOrigin, dynamicGasLimit := false } := by
  cases event with
  | call depth inputs =>
    obtain ⟨broadcast, hbroadcast, hif⟩ := Option.bind_eq_some_iff.mp h
    split at hif
    · rename_i hcond
      cases hif
      simp only [apply, call, hbroadcast, if_pos (And.intro hcond.1 hcond.2.1), hcond.2.2]
      rfl
    · cases hif
  | _ => cases h

theorem sameNonces_of_none (hsigner : event.signer S = none)
    (hrecords : self.records event = none) :
    self.SameNonces (self.apply config event) := by
  cases event with
  | cheatcode depth caller cheatcode =>
    simp only [apply]
    split
    · rename_i after hafter
      cases cheatcode with
      | broadcast newOrigin singleCall => exact .of_startBroadcast hafter
      | broadcastKey key singleCall => exact .of_broadcastKey hafter
      | stopBroadcast => exact .of_stopBroadcast hafter
      | signAndAttachDelegation key implementation crossChain =>
        have hkey : S.address key = none := hsigner
        simp [applyCheatcode, signDelegation, hkey, Except.map] at hafter
    · exact .refl self
  | opcode isDynamic => exact sameNonces_setGasLimitType isDynamic
  | callEnd depth => exact sameNonces_callEnd
  | call depth inputs => exact sameNonces_call hrecords

end State

/-! ### What a script keeps -/

namespace Script

variable (self : Script S)

/-- How far the pending delegations of an authority are ahead of its local nonce. -/
def ahead (authority : Address) : Nat :=
  if self.signed.lookup authority = some (some authority) then 1 else 0

/-- The nonce that the first pending delegation of an authority is signed for. -/
def firstNonce (authority : Address) : Nat := self.state.nonces authority + self.ahead authority

/-- The pending delegations are numbered from the first nonces on. As long as all transactions are
valid, the local nonces lack the delegations that went with the transactions of others. -/
structure Invariant (nonces : Address → Nat) (script : Script S) : Prop where
  numbered : ∃ tickets,
    List.Forall₂ SignedAuthorization.IsTicket script.state.activeDelegations tickets ∧
      tickets.map Prod.fst = script.signed.map Prod.fst ∧ Accepts script.firstNonce tickets
  replayed : ValidOnChain nonces script.state.broadcastableTransactions → ∀ account,
    replayAll nonces script.state.broadcastableTransactions account =
      script.state.nonces account +
        foreignUses account script.state.broadcastableTransactions

end Script

section

variable {txs : List (TransactionRequest S)} {tx : TransactionRequest S}

theorem validOnChain_snoc :
    ValidOnChain nonces (txs ++ [tx]) ↔
      ValidOnChain nonces txs ∧ tx.ValidFrom (replayAll nonces txs) := by
  induction txs generalizing nonces with
  | nil => simp [ValidOnChain, replayAll]
  | cons first txs ih =>
    rw [List.cons_append, ValidOnChain, ValidOnChain, ih, and_assoc]
    rfl

theorem replayAll_snoc : replayAll nonces (txs ++ [tx]) = tx.replay (replayAll nonces txs) := by
  simp only [replayAll, List.foldl_append, List.foldl_cons, List.foldl_nil]

theorem foreignUses_snoc :
    foreignUses account (txs ++ [tx]) = foreignUses account txs +
      if tx.sender = account then 0 else delegationsOf account tx.authorizations := by
  simp only [foreignUses, List.map_append, List.map_cons, List.map_nil, List.sum_append,
    List.sum_cons, List.sum_nil, Nat.add_zero]

end

namespace Script

variable {config : Config} {self : Script S} {event : Event}

theorem transaction_authorizations (broadcast : Broadcast) (inputs : CallInputs) :
    (self.state.transaction config broadcast inputs).authorizations =
      self.state.activeDelegations := by
  simp only [authorizations, State.transaction]
  cases self.state.activeDelegations <;> rfl

theorem Invariant.initial (delegates : Address → Option Address) (wallets : Wallets)
    (txCaller : Address) :
    Invariant nonces (Script.initial nonces delegates wallets txCaller : Script S) where
  numbered := ⟨[], .nil, rfl, trivial⟩
  replayed _ _ := rfl

/-- The authorities of the pending delegations are those with a record. -/
theorem mem_signed_iff :
    authority ∈ self.signed.map Prod.fst ↔
      ∃ origin, self.signed.lookup authority = some origin := by
  rw [← Option.isSome_iff_exists, List.lookup_isSome_iff, List.mem_map]
  simp only [beq_iff_eq, @eq_comm _ _ authority]

theorem ahead_of_lookup {origin : Option Address} (h : self.signed.lookup authority = some origin) :
    self.ahead authority = if origin = some authority then 1 else 0 := by
  simp only [ahead, h, Option.some.injEq]

variable (hinv : self.Invariant nonces)
include hinv

/-- Whether the next transaction is valid, as far as those before are. -/
theorem validFrom_iff (hvalid : ValidOnChain nonces self.state.broadcastableTransactions)
    {recorded : Broadcast × CallInputs} (hrecords : self.state.records event = some recorded) :
    (self.state.transaction config recorded.1 recorded.2).ValidFrom
        (replayAll nonces self.state.broadcastableTransactions) ↔ self.InOrder event := by
  obtain ⟨tickets, htickets, hsigned, haccepts⟩ := hinv.numbered
  have hreplayed := hinv.replayed hvalid
  have hsender : (self.state.transaction config recorded.1 recorded.2).nonce =
      replayAll nonces self.state.broadcastableTransactions recorded.1.newOrigin ↔
      foreignUses recorded.1.newOrigin self.state.broadcastableTransactions = 0 := by
    rw [hreplayed]
    simp only [State.transaction]
    omega
  have hauthority : ∀ authority,
      bump (replayAll nonces self.state.broadcastableTransactions) recorded.1.newOrigin authority =
        self.firstNonce authority ↔
      foreignUses authority self.state.broadcastableTransactions +
        (if authority = recorded.1.newOrigin then 1 else 0) = self.ahead authority := by
    intro authority
    rw [bump_apply, hreplayed, firstNonce]
    omega
  rw [ValidFrom, transaction_authorizations, allAccepted_iff htickets,
    haccepts.accepts_iff, hsigned]
  simp only [InOrder, hrecords, Option.some.injEq, forall_eq']
  refine and_congr hsender ⟨fun h authority origin hlookup => ?_, fun h authority hmem => ?_⟩
  · rw [← ahead_of_lookup hlookup]
    exact (hauthority authority).mp (h authority (mem_signed_iff.mpr ⟨origin, hlookup⟩))
  · obtain ⟨origin, hlookup⟩ := mem_signed_iff.mp hmem
    refine (hauthority authority).mpr ?_
    rw [ahead_of_lookup hlookup]
    exact h authority origin hlookup

/-- A call that is recorded keeps the invariant, whether it is in order or not. -/
theorem Invariant.record (hisolate : config.isolate = false) {recorded : Broadcast × CallInputs}
    (hrecords : self.state.records event = some recorded) :
    (self.step config event).Invariant nonces := by
  obtain ⟨tickets, htickets, -, -⟩ := hinv.numbered
  have happly := @State.apply_of_records _ config _ _ _ hrecords
  have hsigned : self.signedAfter event = [] := by simp [signedAfter, hrecords]
  refine ⟨?_, ?_⟩
  · refine ⟨[], ?_, ?_, trivial⟩
    · simp only [step, happly, State.record]
      exact .nil
    · simp only [step, hsigned, List.map_nil]
  · simp only [step, happly, State.record]
    intro hvalid account
    obtain ⟨hbefore, -, hauthorizations⟩ := validOnChain_snoc.mp hvalid
    rw [transaction_authorizations] at hauthorizations
    have haccepts := (allAccepted_iff htickets).mp hauthorizations
    have hreplayed := hinv.replayed hbefore account
    rw [replayAll_snoc, foreignUses_snoc, replay, transaction_authorizations,
      foldl_authorize htickets haccepts, bump_apply, hreplayed, countDelegations_eq, hisolate,
      delegationsOf_eq htickets, delegationsOf_eq htickets]
    have htx : (self.state.transaction config recorded.1 recorded.2).sender =
      recorded.1.newOrigin := rfl
    rw [htx]
    by_cases hown : account = recorded.1.newOrigin
    · subst hown
      simp only [if_true, Function.update_self, Bool.false_eq_true, if_false]
      omega
    · rw [if_neg hown, if_neg (Ne.symm hown), Function.update_of_ne hown]
      omega

/-- So does a delegation that is attached. -/
theorem Invariant.sign {signer : Address} (hsigner : event.signer S = some signer) :
    (self.step config event).Invariant nonces := by
  obtain ⟨tickets, htickets, hsigned, haccepts⟩ := hinv.numbered
  obtain ⟨auth, hticket, hnonces, hactive, htxs⟩ :=
    @State.apply_of_signer _ config self.state _ _ hsigner
  have hrecords : self.state.records event = none := by
    cases event with
    | cheatcode => rfl
    | _ => cases hsigner
  have hafter : (self.step config event).signed =
      self.signed ++ [(signer, self.state.broadcast.map (·.newOrigin))] := by
    simp [step, signedAfter, hrecords, hsigner]
  -- The first delegation of an authority stays the first one.
  have hfirst : ∀ authority, (self.step config event).firstNonce authority =
      if authority ∈ self.signed.map Prod.fst then self.firstNonce authority
      else self.state.nonces authority +
        if authority = signer ∧ self.state.broadcast.map (·.newOrigin) = some authority then 1
        else 0 := by
    intro authority
    have hlocal : (self.step config event).state.nonces = self.state.nonces := hnonces
    rw [firstNonce, ahead, hafter, List.lookup_append, hlocal]
    by_cases hmem : authority ∈ self.signed.map Prod.fst
    · obtain ⟨origin, hlookup⟩ := mem_signed_iff.mp hmem
      rw [if_pos hmem, hlookup, Option.some_or, firstNonce, ahead, hlookup]
    · have hnone : self.signed.lookup authority = none :=
        Option.eq_none_iff_forall_ne_some.mpr fun origin hlookup =>
          hmem (mem_signed_iff.mpr ⟨origin, hlookup⟩)
      rw [if_neg hmem, hnone, Option.none_or]
      by_cases hsame : authority = signer
      · simp [hsame]
      · simp [List.lookup_cons, beq_eq_false_iff_ne.mpr hsame, hsame]
  refine ⟨⟨tickets ++ [(signer, self.state.nextNonce signer)], ?_, ?_, ?_⟩, ?_⟩
  · simp only [step, hactive]
    exact List.rel_append htickets (.cons hticket .nil)
  · rw [hafter, List.map_append, List.map_append, hsigned]
    rfl
  · refine accepts_snoc.mpr ⟨haccepts.accepts_iff.mpr fun authority hmem => ?_, ?_⟩
    · rw [hfirst, if_pos (hsigned ▸ hmem)]
    · rw [State.nextNonce, nextDelegationNonce_eq htickets haccepts, hfirst, ← hsigned]
      by_cases hmem : signer ∈ tickets.map Prod.fst
      · rw [if_neg (fun hzero => uses_eq_zero.mp hzero hmem), if_pos hmem]
      · rw [if_pos (uses_eq_zero.mpr hmem), if_neg hmem, uses_eq_zero.mpr hmem]
        simp only [true_and, Nat.add_zero]
  · simp only [step, htxs, hnonces]
    exact hinv.replayed

theorem Invariant.step (hisolate : config.isolate = false) (event : Event) :
    (self.step config event).Invariant nonces := by
  cases hrecords : self.state.records event with
  | some recorded => exact hinv.record hisolate hrecords
  | none =>
    cases hsigner : event.signer S with
    | some signer => exact hinv.sign hsigner
    | none =>
      have hsame := @State.sameNonces_of_none _ config _ _ hsigner hrecords
      have hsigned : self.signedAfter event = self.signed := by
        simp [signedAfter, hrecords, hsigner]
      have hfirst : (self.step config event).firstNonce = self.firstNonce := by
        funext authority
        simp only [firstNonce, ahead, Script.step, hsame.nonces, hsigned]
      refine ⟨?_, ?_⟩
      · rw [hfirst]
        simpa only [Script.step, hsame.activeDelegations, hsigned] using hinv.numbered
      · simpa only [Script.step, hsame.broadcastableTransactions, hsame.nonces] using
          hinv.replayed

/-- A step keeps the transactions valid exactly if it is in order. -/
theorem validOnChain_step_iff :
    ValidOnChain nonces (self.step config event).state.broadcastableTransactions ↔
      ValidOnChain nonces self.state.broadcastableTransactions ∧ self.InOrder event := by
  have hnone : self.state.records event = none → self.InOrder event := by
    intro hrecords recorded hrecorded
    rw [hrecords] at hrecorded
    cases hrecorded
  cases hrecords : self.state.records event with
  | some recorded =>
    have happly := @State.apply_of_records _ config _ _ _ hrecords
    have htxs : (self.step config event).state.broadcastableTransactions =
        self.state.broadcastableTransactions ++
          [self.state.transaction config recorded.1 recorded.2] := by
      simp only [step, happly, State.record]
    rw [htxs, validOnChain_snoc]
    exact and_congr_right fun hvalid => validFrom_iff hinv hvalid hrecords
  | none =>
    have htxs : (self.step config event).state.broadcastableTransactions =
        self.state.broadcastableTransactions := by
      cases hsigner : event.signer S with
      | some signer =>
        obtain ⟨_, -, -, -, htxs⟩ := @State.apply_of_signer _ config self.state _ _ hsigner
        exact htxs
      | none => exact (State.sameNonces_of_none hsigner hrecords).broadcastableTransactions
    rw [htxs, and_iff_left (hnone hrecords)]

end Script

/-- **Delegations.** The transactions of a script are valid on the chain if and only if all its
calls are in order, that is, if each delegation that goes with a call was signed for the nonce which
its authority has by then. Delegations that went with the transactions of others count for this
nonce, although the signing does not know of them. -/
theorem validOnChain_iff_inOrder (config : Config) (hisolate : config.isolate = false)
    (nonces : Address → Nat) (delegates : Address → Option Address) (wallets : Wallets)
    (txCaller : Address) (events : List Event) (script : Script S)
    (h : Run (Script.Steps config) (.initial nonces delegates wallets txCaller) events script) :
    ValidOnChain nonces script.state.broadcastableTransactions ↔
      Run.Along (Script.Steps config) (.initial nonces delegates wallets txCaller : Script S) events
        Script.InOrder := by
  refine h.along_iff_of_invariant (I := Script.Invariant nonces)
    (G := fun s : Script S => ValidOnChain nonces s.state.broadcastableTransactions) ?_
    (.initial delegates wallets txCaller) ?_ trivial ?_
  · exact fun _ _ _ _ ht ht' => ht.symm.trans ht'
  · rintro s e _ hinv rfl
    exact hinv.step hisolate e
  · rintro s e _ hinv rfl
    exact Script.validOnChain_step_iff hinv

/-- Signatures that are the key. -/
def keySignatures : Signatures where
  Signature := PrivateKey
  address key := some (key.setWidth 160)
  sign key _ := key
  recover _ key := some (key.setWidth 160)
  recover_sign _ _ _ h := h

/-- A call by the script. -/
def plainCall : Event :=
  .call 1
    { caller := 9, targetAddress := 8, transferValue := some 0, input := [], gasLimit := 100000,
      isStatic := false }

def attach (key : PrivateKey) : Event := .cheatcode 1 9 (.signAndAttachDelegation key 7 false)

/-- The sender and somebody else delegate, and then the sender once more. -/
theorem validOnChain_iff_inOrder_pair :
    ∃ script : Script keySignatures,
      Run (Script.Steps ⟨1, false⟩) (.initial (fun _ => 0) (fun _ => none) ⟨none, []⟩ 9)
        [.cheatcode 1 9 (.broadcast (some 1) false), attach 1, attach 2, plainCall, .callEnd 1,
          attach 1, plainCall] script ∧
      script.state.broadcastableTransactions.map (·.nonce) = [0, 2] ∧
      Run.Along (Script.Steps ⟨1, false⟩)
        (.initial (fun _ => 0) (fun _ => none) ⟨none, []⟩ 9 : Script keySignatures)
        [.cheatcode 1 9 (.broadcast (some 1) false), attach 1, attach 2, plainCall, .callEnd 1,
          attach 1, plainCall] Script.InOrder := by
  have hrun : Run (Script.Steps ⟨1, false⟩)
      (.initial (fun _ => 0) (fun _ => none) ⟨none, []⟩ 9 : Script keySignatures)
      [.cheatcode 1 9 (.broadcast (some 1) false), attach 1, attach 2, plainCall, .callEnd 1,
        attach 1, plainCall] _ :=
    .cons rfl (.cons rfl (.cons rfl (.cons rfl (.cons rfl (.cons rfl (.cons rfl .nil))))))
  refine ⟨_, hrun, rfl, (validOnChain_iff_inOrder _ rfl _ _ _ _ _ _ hrun).mp ?_⟩
  exact ⟨⟨rfl, ⟨_, rfl, rfl⟩, ⟨_, rfl, rfl⟩, trivial⟩, ⟨rfl, ⟨_, rfl, rfl⟩, trivial⟩, trivial⟩

/-- An account that delegates in two transactions of somebody else signs for the same nonce twice.
And a sender that delegates before its broadcast starts signs for the nonce of the transaction. -/
theorem not_validOnChain :
    ¬ValidOnChain (fun _ => 0)
      ([.cheatcode 1 9 (.broadcast (some 1) false), attach 2, plainCall, .callEnd 1, attach 2,
        plainCall].foldl (State.apply ⟨1, false⟩)
          (.initial (fun _ => 0) (fun _ => none) ⟨none, []⟩ 9 : State keySignatures)
      ).broadcastableTransactions ∧
    ¬ValidOnChain (fun _ => 0)
      ([attach 1, .cheatcode 1 9 (.broadcast (some 1) false), plainCall].foldl
        (State.apply ⟨1, false⟩)
          (.initial (fun _ => 0) (fun _ => none) ⟨none, []⟩ 9 : State keySignatures)
      ).broadcastableTransactions := by
  constructor
  · rintro ⟨-, ⟨-, ⟨authority, hrecover, hnonce⟩, -⟩, -⟩
    cases hrecover
    exact absurd hnonce (by decide)
  · rintro ⟨⟨-, ⟨authority, hrecover, hnonce⟩, -⟩, -⟩
    cases hrecover
    exact absurd hnonce (by decide)

end BaseAnvil.Cheats.Delegation
