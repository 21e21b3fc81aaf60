import BaseAnvil.Chain.Backend

/-!
# BaseAnvil.Chain.Exec

Requests to the backend run one after the other, as a function. With a concrete
runtime this computes, so a history can be evaluated and its last state looked at;
`run_of_execAll` turns the result into a run.
-/

namespace BaseAnvil.Chain

open Lib

/-- The backend after a sequence of requests. -/
def Backend.execAll (rt : Runtime) (b : Backend) (ops : List BackendOp) : Option Backend :=
  ops.foldlM (Backend.exec rt) b

theorem Backend.run_of_execAll {rt : Runtime} {ops : List BackendOp} {b b' : Backend}
    (h : b.execAll rt ops = some b') : Run (BackendStep rt) b ops b' :=
  Run.of_foldlM h

/-! ### A concrete runtime -/

/-- The sender's account after a transaction: its nonce has gone up, and it has stored the new
one. -/
def DbAccount.bump (acc : DbAccount) (nonce : UInt64) : DbAccount :=
  { acc with
    info := { acc.info with nonce := nonce + 1 }
    storage := acc.storage.insert 0 (BitVec.ofNat 256 (nonce.toNat + 1)) }

/-- An EVM in which every transaction succeeds and changes the sender's account, with a hash
that tells blocks apart by number and timestamp. -/
def sampleEvm : Evm where
  basic db address := (.ok (some (match db.accounts.lookup address with
    | some acc => acc.info
    | none => .default 0)), db)
  insertAccountInfo db address info :=
    { db with accounts := db.accounts.insert address ⟨info, .none, ∅⟩ }
  insertAccountStorage db _ _ _ := (.ok (), db)
  envelope _ := ⟨.eip1559, 21000, none, none⟩
  txGasLimitCap _ := U64.max
  transactCommit db _ tx :=
    let acc := (db.accounts.lookup tx.sender).getD ⟨.default 0, .none, ∅⟩
    (.ok (.success .stop 21000 [] (.call [])),
      { db with accounts := db.accounts.insert tx.sender (acc.bump tx.nonce) })
  hashSlow header := BitVec.ofNat 256 (header.number.toNat + 2 ^ 64 * header.timestamp.toNat + 1)
  accrue bloom _ := bloom
  calculateReceiptRoot _ := 0
  calculateTransactionRoot _ := 0
  stateRoot _ := 0

/-- The runtime around it, with constant fees. -/
def sampleRuntime : Runtime where
  evm := sampleEvm
  rules := ⟨fun _ _ fee => fee, fun excess _ _ => excess, 0, fun excess _ => ⟨excess, 1⟩⟩
  keccak256 _ := 0
  isArbitrum _ := false
  validate _ _ _ := true
  emptyRootHash := 0
  defaultBlob := none
  isDateTime _ := true

/-- A chain that starts at block zero, with one account. -/
def sampleGenesis : Backend.Genesis where
  timestamp := 0
  number := 0
  db := ⟨Finmap.singleton 1 ⟨⟨100, 0, 0, none⟩, .none, ∅⟩, ∅, ∅⟩
  env := ⟨⟨0, 0, 0, 30000000, 1, 0, none, none⟩, ⟨31337, .cancun, false, false, none⟩⟩
  fees := ⟨.cancun, 1, ⟨0, 1⟩⟩
  pruneStateHistoryConfig := ⟨false, none⟩
  maxPersistedStates := none
  transactionBlockKeeper := none
  automineBlockTime := none

/-- A history from that genesis block, and a property of its last state. -/
theorem run_of_sample (ops : List BackendOp) (P : Backend → Prop) [∀ b, Decidable (P b)]
    (h : ((Backend.withGenesis sampleRuntime ascendingDbOrder 0 sampleGenesis).bind
      fun b => (b.execAll sampleRuntime ops).map fun b => decide (P b)) = some true) :
    ∃ b, BackendRun sampleRuntime ops b ∧ P b := by
  obtain ⟨b₀, hgenesis, hrest⟩ := Option.bind_eq_some_iff.mp h
  obtain ⟨b, hops, hP⟩ := exists_of_map_decide hrest
  exact ⟨b, ⟨_, _, _, b₀, hgenesis, Backend.run_of_execAll hops⟩, hP⟩

end BaseAnvil.Chain
