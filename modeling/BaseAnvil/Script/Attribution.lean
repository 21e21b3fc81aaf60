import BaseAnvil.Script.Kept

/-!
# BaseAnvil.Script.Attribution

Whose hash is recorded for a transaction.

The sends of a batch complete in any order, and a send that failed is taken up again after the
others; the position of the hash is counted. It is the position of the transaction that was sent
exactly as long as the sends of a batch complete in the order of their transactions.
-/

namespace BaseAnvil.Script

open Lib Machine ScriptSequence RunArgs Conditions
open Pool (Address TxHash)

/-- What is sent is this transaction, completed for its chain. -/
def SendTransactionKind.Sends (chain : UInt64) (kind : SendTransactionKind) :
    TransactionMaybeSigned → Prop
  | .signed tx => kind = .signed tx
  | .unsigned tx => ∃ fees, kind.request? = some (RunArgs.complete chain fees tx)

/-- The task sends the transaction at its position. -/
def Task.Made (transactions : List TransactionMaybeSigned) (chain : UInt64) (task : Task) : Prop :=
  ∃ tx, transactions[task.position]? = some tx ∧ task.kind.Sends chain tx

/-- The provider returned this hash for sending the transaction at this position. -/
def Returned (transactions : List TransactionMaybeSigned) (chain : UInt64) (log : List Entry)
    (position : Nat) (hash : TxHash) : Prop :=
  ∃ index options task answers, Entry.attempt index options task answers ∈ log ∧
    task.position = position ∧ task.Made transactions chain ∧
    (task.run options answers).1 = .ok hash

/-- This hash was recorded for the transaction at this position. -/
def Recorded (log : List Entry) (index : Nat) (hash : TxHash) : Prop :=
  ∃ options task answers, Entry.attempt index options task answers ∈ log ∧
    (task.run options answers).1 = .ok hash

/-- A hash is recorded for the transaction it was returned for. -/
def Entry.Right : Entry → Prop
  | .already _ _ => True
  | .attempt index options task answers =>
    (task.run options answers).1.isOk → index = task.position

/-- The sequences there are: in the file, and in memory. -/
def Machine.Has (m : Machine) (sequence : ScriptSequence) : Prop :=
  sequence = m.saved ∨ ∃ p, m.process = some p ∧ sequence = p.sequence

/-- Hashes belong to their transactions: each time one is recorded, in every sequence there is,
and for every receipt. -/
structure Machine.Attributed (transactions : List TransactionMaybeSigned) (chain : UInt64)
    (m : Machine) : Prop where
  recorded : ∀ index options task answers hash, .attempt index options task answers ∈ m.log →
    (task.run options answers).1 = .ok hash → index = task.position ∧ task.Made transactions chain
  hashes : ∀ sequence, m.Has sequence → ∀ i hash, sequence.hashAt i = some hash →
    Returned transactions chain m.log i hash
  receipts : ∀ sequence, m.Has sequence → ∀ receipt i, sequence.attributedTo receipt = some i →
    Returned transactions chain m.log i receipt.transactionHash

/-- A send that returns a hash is that of the first transaction of its batch that has none yet. -/
def inOrder : Conditions where
  check _ _ _ := True
  complete _ buffer loop task answers :=
    (task.run loop.options answers).1.isOk → ∀ other ∈ buffer, task.position ≤ other.position

/-! ### Where hashes come from -/

/-- The sequence has these transactions, and its hashes were recorded. -/
structure ScriptSequence.Traced (transactions : List TransactionMaybeSigned) (chain : UInt64)
    (log : List Entry) (sequence : ScriptSequence) : Prop where
  transactions : sequence.transactions.map (·.transaction) = transactions
  chain : sequence.chain = chain
  recorded : ∀ i hash, sequence.hashAt i = some hash → Recorded log i hash

/-- Hashes were recorded, and tasks are made from the transactions of the sequence. -/
def origins (transactions : List TransactionMaybeSigned) (chain : UInt64) : Invariant where
  saved log sequence := sequence.Traced transactions chain log
  sending log sequence buffer loop :=
    sequence.Traced transactions chain log ∧
      ∀ task ∈ buffer ++ loop.tasks, task.Made transactions chain
  entry
    | .already _ _ => True
    | .attempt _ _ task _ => task.Made transactions chain

variable {task : Task}

section

variable {transactions : List TransactionMaybeSigned} {chain : UInt64} {log : List Entry}
  {sequence : ScriptSequence} {i : Nat} {hash : TxHash}

theorem Recorded.note (e : Entry) (h : Recorded log i hash) : Recorded (log ++ [e]) i hash := by
  obtain ⟨options, task, answers, hmem, hrun⟩ := h
  exact ⟨options, task, answers, List.mem_append_left _ hmem, hrun⟩

variable {kind : SendTransactionsKind}

theorem request?_forSender {sender : Address} {tx : TransactionRequest} {k : SendTransactionKind}
    (h : kind.forSender sender tx = .ok k) : k.request? = some tx := by
  cases kind with
  | unlocked | raw =>
    simp only [SendTransactionsKind.forSender] at h
    split at h
    · cases h
      rfl
    · cases h

theorem made_of_tasks {fees : Fees} {already : Nat} {tasks : List Task}
    (h : RunArgs.tasks sequence kind fees already = .ok tasks) :
    ∀ task ∈ tasks, task.Made (sequence.transactions.map (·.transaction)) sequence.chain := by
  intro task htask
  obtain ⟨entry, hentry, ht⟩ := exists_mem_of_tasks h htask
  obtain ⟨k, rfl, hkind⟩ := exists_of_task ht
  have hget : sequence.transactions[entry.2]? = some entry.1 :=
    List.mem_zipIdx_iff_getElem?.mp hentry
  refine ⟨entry.1.transaction, by simp [hget], ?_⟩
  rcases hkind with ⟨tx, htx, rfl⟩ | ⟨tx, htx, hk⟩
  · rw [htx]
    rfl
  · rw [htx]
    exact ⟨fees, request?_forSender hk⟩

section

variable (h : sequence.Traced transactions chain log)
include h

theorem ScriptSequence.Traced.note (e : Entry) : sequence.Traced transactions chain (log ++ [e]) :=
  ⟨h.transactions, h.chain, fun i hash hi => (h.recorded i hash hi).note e⟩

theorem ScriptSequence.Traced.check {outcome : Outcome} :
    (sequence.check hash outcome).Traced transactions chain log := by
  cases outcome <;> exact ⟨h.transactions, h.chain, h.recorded⟩

theorem ScriptSequence.Traced.addPending {options : SendOptions} {answers : Answers}
    (hrun : (task.run options answers).1 = .ok hash) :
    (sequence.addPending i hash).save.Traced transactions chain
      (log ++ [.attempt i options task answers]) := by
  refine ⟨?_, chain_addPending.trans h.chain, ?_⟩
  · simpa using h.transactions
  · intro j hash' hj
    rcases hashAt_of_addPending hj with ⟨rfl, rfl⟩ | hold
    · exact ⟨_, _, _, List.mem_append_right _ (List.mem_singleton_self _), hrun⟩
    · exact (h.recorded j hash' hold).note _

end

theorem origins_kept : (origins transactions chain).Kept .any where
  saved_note e h := h.note e
  sending_note e h := ⟨h.1.note e, h.2⟩
  saved_save h := ⟨h.transactions, h.chain, h.recorded⟩
  sending_save h := ⟨⟨h.1.transactions, h.1.chain, h.1.recorded⟩, h.2⟩
  saved_of_sending h := h.1
  already _ _ := trivial
  begins args h _ htasks := by
    refine ⟨h, ?_⟩
    obtain ⟨rfl, rfl, -⟩ := h
    exact made_of_tasks htasks
  batch h := by
    refine ⟨h.1, ?_⟩
    rw [List.take_append_drop]
    exact h.2
  saved_check h _ _ _ _ := h.check
  sending_check h _ _ _ _ := ⟨h.1.check, h.2⟩
  attempt h hmem _ := h.2 _ (List.mem_append_left _ hmem)
  retry {log sequence buffer loop slot task answers error} h htask := by
    refine ⟨h.1, ?_⟩
    intro t ht
    simp only [List.mem_append, List.mem_singleton] at ht
    rcases ht with (ht | rfl) | ht
    · exact h.2 t (List.mem_append_left _ (List.mem_of_mem_eraseIdx ht))
    · exact h.2 task (List.mem_append_left _ (List.mem_of_getElem? htask))
    · exact h.2 t (List.mem_append_right _ ht)
  sent {log sequence buffer loop slot task answers hash} h htask _ hrun := by
    refine ⟨h.1.addPending hrun, ?_⟩
    intro t ht
    rcases List.mem_append.mp ht with ht | ht
    · exact h.2 t (List.mem_append_left _ (List.mem_of_mem_eraseIdx ht))
    · exact h.2 t (List.mem_append_right _ ht)

end

/-! ### Counting in step -/

/-- The batch is for the positions from the one counted on, and what is to be sent later is for
those after it. -/
def aligned : Invariant where
  saved _ _ := True
  sending _ _ buffer loop :=
    (buffer.map (·.position)).Perm (List.range' loop.index buffer.length) ∧
      loop.tasks.map (·.position) =
        List.range' (loop.index + buffer.length) loop.tasks.length
  entry _ := True

variable {buffer : List Task}

theorem position_cons_perm {slot : Nat} (h : buffer[slot]? = some task) :
    (task.position :: (buffer.eraseIdx slot).map (·.position)).Perm (buffer.map (·.position)) := by
  obtain ⟨hslot, rfl⟩ := List.getElem?_eq_some_iff.mp h
  exact (List.getElem_cons_eraseIdx_perm hslot).map _

theorem aligned_kept : aligned.Kept (.ofEntry Entry.Right) where
  saved_note _ h := h
  sending_note _ h := h
  saved_save h := h
  sending_save h := h
  saved_of_sending _ := trivial
  already _ _ := trivial
  begins {log sequence kind fees tasks} args _ _ htasks := by
    have hpositions := positions_tasks htasks
    have hlength := congrArg List.length hpositions
    simp only [List.length_map, List.length_range'] at hlength
    refine ⟨.refl _, ?_⟩
    simpa [loop, hlength] using hpositions
  batch {log sequence loop} h := by
    obtain ⟨-, h⟩ := h
    simp only [List.length_nil, Nat.add_zero] at h
    constructor
    · rw [List.map_take, h, List.length_take]
      exact .of_eq (by apply List.ext_getElem <;> simp)
    · rw [List.map_drop, h, List.length_take, List.length_drop]
      apply List.ext_getElem
      · simp
      · intro i hi _
        simp only [List.length_drop, List.length_range'] at hi
        simp only [List.getElem_drop, List.getElem_range']
        omega
  saved_check _ _ _ _ _ := trivial
  sending_check h _ _ _ _ := h
  attempt _ _ _ := trivial
  retry {log sequence buffer loop slot task answers error} h htask := by
    have hslot : slot < buffer.length := (List.getElem?_eq_some_iff.mp htask).1
    have hlength : (buffer.eraseIdx slot ++ [task.retry answers error]).length = buffer.length := by
      simp only [List.length_append, List.length_eraseIdx, if_pos hslot, List.length_singleton]
      omega
    refine ⟨?_, by rw [hlength]; exact h.2⟩
    rw [hlength, List.map_append]
    exact (List.perm_append_singleton _ _).trans ((position_cons_perm htask).trans h.1)
  sent {log sequence buffer loop slot task answers hash} h htask hright hrun := by
    have hslot : slot < buffer.length := (List.getElem?_eq_some_iff.mp htask).1
    have hposition : loop.index = task.position := hright (by rw [hrun]; rfl)
    obtain ⟨n, hn⟩ : ∃ n, buffer.length = n + 1 := Nat.exists_eq_add_one.mpr (by omega)
    have hlength : (buffer.eraseIdx slot).length = n := by
      rw [List.length_eraseIdx, if_pos hslot]
      omega
    constructor
    · have hperm := (position_cons_perm htask).trans h.1
      rw [hn, List.range'_succ, ← hposition] at hperm
      rw [hlength]
      exact hperm.cons_inv
    · have hshift : loop.index + buffer.length = loop.index + 1 + n := by omega
      change loop.tasks.map (·.position) =
        List.range' (loop.index + 1 + (buffer.eraseIdx slot).length) loop.tasks.length
      rw [hlength, ← hshift]
      exact h.2

variable {sequence : ScriptSequence}

/-- The position counted is the first one of the batch. -/
theorem right_iff_inOrder {log : List Entry} {loop : Loop} {answers : Answers}
    (h : aligned.sending log sequence buffer loop) (htask : task ∈ buffer) :
    Entry.Right (.attempt loop.index loop.options task answers) ↔
      inOrder.complete sequence buffer loop task answers := by
  have hfrom : ∀ other ∈ buffer, loop.index ≤ other.position := by
    intro other hother
    have hmem := h.1.mem_iff.mp (List.mem_map_of_mem hother)
    exact (List.mem_range'_1.mp hmem).1
  have hfirst : ∃ first ∈ buffer, first.position = loop.index := by
    have hpos : 0 < buffer.length := List.length_pos_of_mem htask
    exact List.mem_map.mp (h.1.mem_iff.mpr (List.mem_range'_1.mpr ⟨le_rfl, by omega⟩))
  refine imp_congr_right fun _ => ⟨?_, ?_⟩
  · intro hindex other hother
    rw [← hindex]
    exact hfrom other hother
  · intro hleast
    obtain ⟨first, hmem, hindex⟩ := hfirst
    exact le_antisymm (hfrom task htask) (hindex ▸ hleast first hmem)

theorem meets_right_iff {m : Machine} {event : Event} (h : aligned.Holds m) :
    (ofEntry Entry.Right).Meets m event ↔ inOrder.Meets m event := by
  unfold Meets
  split
  · exact Iff.rfl
  · rename_i slot answers args sequence buffer loop hprocess
    refine forall₂_congr fun task htask => ?_
    exact right_iff_inOrder (h.process _ hprocess).2 (List.mem_of_getElem? htask)
  · exact Iff.rfl

/-! ### The result -/

section

variable {transactions : List TransactionWithMetadata} {chain : UInt64} {events : List Event}
  {m : Machine}

section

variable (h : Run Machine.Step (Machine.initial transactions chain) events m)
include h

theorem origins_of_run : (origins (transactions.map (·.transaction)) chain).Holds m := by
  refine origins_kept.run_unguarded meets_any (Invariant.holds_initial ⟨?_, rfl, ?_⟩) h
  · simp [initial]
  · intro i hash hi
    simp [initial, hashAt, Option.bind_eq_some_iff] at hi

theorem right_iff_along :
    (∀ e ∈ m.log, e.Right) ↔
      Run.Along Step (initial transactions chain) events inOrder.Meets :=
  (forall_log_iff_along (fun _ _ => trivial) rfl h).trans
    (Run.along_iff (I := aligned.Holds) (Invariant.holds_initial trivial)
      (fun _ _ hI => meets_right_iff hI) fun _ _ _ hI hP hs => aligned_kept.step hI hP hs)

end

theorem Machine.Has.traced {txs : List TransactionMaybeSigned} (h : (origins txs chain).Holds m)
    (hhas : m.Has sequence) : sequence.Traced txs chain m.log := by
  rcases hhas with rfl | ⟨⟨args, sequence', phase⟩, hprocess, rfl⟩
  · exact h.saved
  · have hduring := (h.process _ hprocess).2
    cases phase with
    | waiting remaining failed loop => exact origins_kept.between_saved hduring.1
    | sending buffer loop => exact hduring.1

/-- **Hashes.** Hashes belong to their transactions after a run exactly if all the sends of the run
completed in the order of their transactions. A hash is recorded at the next free position,
whichever send it comes from. -/
theorem attributed_iff_inOrder
    (h : Run Machine.Step (Machine.initial transactions chain) events m) :
    m.Attributed (transactions.map (·.transaction)) chain ↔
      Run.Along Machine.Step (Machine.initial transactions chain) events inOrder.Meets := by
  have horigins := origins_of_run h
  rw [← right_iff_along h]
  constructor
  · intro hm e he
    cases e with
    | already count sequence => trivial
    | attempt index options task answers =>
      intro hok
      cases hrun : (task.run options answers).1 with
      | error e =>
        rw [hrun] at hok
        cases hok
      | ok hash => exact (hm.recorded index options task answers hash he hrun).1
  · intro hright
    have hrecorded : ∀ i hash, Recorded m.log i hash →
        Returned (transactions.map (·.transaction)) chain m.log i hash := by
      rintro i hash ⟨options, task, answers, hmem, hrun⟩
      have hindex : i = task.position := hright _ hmem (by rw [hrun]; rfl)
      exact ⟨i, options, task, answers, hmem, hindex.symm, horigins.entries _ hmem, hrun⟩
    refine ⟨?_, ?_, ?_⟩
    · intro index options task answers hash hmem hrun
      exact ⟨hright _ hmem (by rw [hrun]; rfl), horigins.entries _ hmem⟩
    · intro sequence hhas i hash hi
      exact hrecorded i hash ((hhas.traced horigins).recorded i hash hi)
    · intro sequence hhas receipt i hi
      exact hrecorded i _ ((hhas.traced horigins).recorded i _
        (hashAt_of_attributedTo hi))

/-- Two calls of one sender. -/
def samplePair : List TransactionWithMetadata :=
  [0, 1].map fun nonce =>
    { hash := none
      transaction := .unsigned
        { sender := 1, nonce := nonce, kind := some (.call 2), gas := some 21000, chainId := none,
          gasPrice := none, maxFeePerGas := none, maxPriorityFeePerGas := none }
      contractName := none
      function := none
      isFixedGasLimit := false }

/-- `--unlocked --batch-size 2` on a chain that supports batches. -/
def sampleArgs : RunArgs where
  unlocked := true
  wallets := ∅
  slow := false
  skipSimulation := false
  batchSize := 2
  gasEstimateMultiplier := 130
  legacy := true
  withGasPrice := some 1
  priorityGasPrice := none
  otherSenders := ∅
  chainIsLegacy _ := false
  hasDifferentGasCalc _ := false
  hasBatchSupport _ := true
  gasPrice := .ok 1
  estimatedFees := .ok (1, 1)

/-- The provider accepts a transaction. -/
def accepting (hash : TxHash) : Answers where
  nonces _ := .ok 0
  estimate := .ok 21000
  build := .ok ()
  send := .ok hash

/-- Two transactions of one batch are accepted in order. -/
theorem attributed_iff_inOrder_pair :
    ∃ m, Run Machine.Step (Machine.initial samplePair 1)
        [.start sampleArgs, .complete 0 (accepting 0xaa), .complete 0 (accepting 0xbb)] m ∧
      (m.Attributed (samplePair.map (·.transaction)) 1 ↔
        Run.Along Machine.Step (Machine.initial samplePair 1)
          [.start sampleArgs, .complete 0 (accepting 0xaa), .complete 0 (accepting 0xbb)]
          inOrder.Meets) :=
  ⟨_, Run.of_foldlM rfl, attributed_iff_inOrder (Run.of_foldlM rfl)⟩

/-- The second of two transactions is accepted first: its hash is recorded for the first one. -/
theorem not_attributed :
    ∃ transactions chain events m, Run Machine.Step (Machine.initial transactions chain) events m ∧
      ¬m.Attributed (transactions.map (·.transaction)) chain := by
  refine ⟨samplePair, 1, [.start sampleArgs, .complete 1 (accepting 0xbb)], _,
    Run.of_foldlM rfl, ?_⟩
  intro h
  have hrecorded := h.recorded 0 _ _ _ 0xbb (List.mem_cons_of_mem _ List.mem_cons_self) rfl
  exact absurd hrecorded.1 (by decide)

end

end BaseAnvil.Script
