import BaseAnvil.Script.Attribution
import Mathlib.Order.UpperLower.Basic
import Mathlib.Order.Interval.Set.Infinite

/-!
# BaseAnvil.Script.Resume

What a run skips.

Progress is kept as the number of receipts, and a run skips that many transactions. These are the
transactions that have a receipt as long as the outcomes come in such an order that the
transactions with a receipt, and those still pending before them, form an initial part of the
sequence. A dropped transaction does not stop a run, so the outcomes need not do so.
-/

namespace BaseAnvil.Script

open Lib ScriptSequence Machine
open Pool (TxHash)

namespace ScriptSequence

variable (self : ScriptSequence)

/-- The transaction at this position has a receipt. -/
def HasReceipt (i : Nat) : Prop :=
  ∃ receipt ∈ self.receipts, self.hashAt i = some receipt.transactionHash

/-- The transaction at this position is pending. -/
def IsPending (i : Nat) : Prop := ∃ hash ∈ self.pending, self.hashAt i = some hash

instance : DecidablePred self.HasReceipt := fun _ =>
  inferInstanceAs (Decidable (∃ receipt ∈ self.receipts, _))

instance : DecidablePred self.IsPending := fun _ =>
  inferInstanceAs (Decidable (∃ hash ∈ self.pending, _))

/-- What a run that computes `already_broadcasted = count` skips is what has a receipt, and it
sends everything else. -/
structure ResumesAt (sequence : ScriptSequence) (count : Nat) : Prop where
  receipts : ∀ i, sequence.HasReceipt i ↔ i < count
  sends : ∀ kind fees tasks, RunArgs.tasks sequence kind fees count = .ok tasks →
    ∀ i < sequence.transactions.length,
      (∃ task ∈ tasks, task.position = i) ↔ ¬sequence.HasReceipt i

end ScriptSequence

/-- Whenever `already_broadcasted` is computed, the run resumes where it should. -/
def Entry.Resumes : Entry → Prop
  | .already count sequence => sequence.ResumesAt count
  | .attempt _ _ _ _ => True

/-- Hashes are recorded for the transactions that were sent, and tell them apart. -/
def recordsRight : Conditions where
  check _ _ _ := True
  complete sequence _ loop task answers :=
    ∀ hash, (task.run loop.options answers).1 = .ok hash →
      loop.index = task.position ∧ ∀ i ≠ loop.index, sequence.hashAt i ≠ some hash

/-- Besides, no transaction succeeds after one that is lost: at a success everything before the
transaction has a receipt or is pending, and when a transaction is lost (dropped, reverted, or
given up) nothing after it has a receipt. -/
def orderly : Conditions where
  check sequence hash outcome := ∀ i, sequence.hashAt i = some hash → match outcome with
    | .success _ => ∀ j < i, sequence.HasReceipt j ∨ sequence.IsPending j
    | .error _ => True
    | _ => ∀ j > i, ¬sequence.HasReceipt j
  complete := recordsRight.complete

variable {receipt : Receipt}

namespace ScriptSequence

/-- Receipts and pending hashes are those of different transactions, and before a transaction
with a receipt all have one or are pending. -/
structure Ordered (sequence : ScriptSequence) : Prop where
  receipts_nodup : (sequence.receipts.map (·.transactionHash)).Nodup
  receipts_known :
    ∀ receipt ∈ sequence.receipts, ∃ i, sequence.hashAt i = some receipt.transactionHash
  pending_known : ∀ hash ∈ sequence.pending, ∃ i, sequence.hashAt i = some hash
  distinct : ∀ i j hash, sequence.hashAt i = some hash → sequence.hashAt j = some hash → i = j
  disjoint : ∀ receipt ∈ sequence.receipts, receipt.transactionHash ∉ sequence.pending
  ordered : ∀ i j, i < j → sequence.HasReceipt j → sequence.HasReceipt i ∨ sequence.IsPending i

variable {self : ScriptSequence} {hash : TxHash} {outcome : Outcome} {index : Nat} {i : Nat}

@[simp] theorem hasReceipt_save : self.save.HasReceipt i ↔ self.HasReceipt i := by
  simp [HasReceipt]

@[simp] theorem isPending_save : self.save.IsPending i ↔ self.IsPending i := Iff.rfl

theorem Ordered.save (h : self.Ordered) : self.save.Ordered where
  receipts_nodup := (perm_receipts_save.map _).nodup_iff.mpr h.receipts_nodup
  receipts_known receipt hr := h.receipts_known receipt (mem_receipts_save.mp hr)
  pending_known := h.pending_known
  distinct := h.distinct
  disjoint receipt hr := h.disjoint receipt (mem_receipts_save.mp hr)
  ordered i j hij hj := by
    rw [hasReceipt_save] at hj ⊢
    exact h.ordered i j hij hj

/-! ### Checks -/

theorem isPending_removePending :
    (self.removePending hash).IsPending i ↔ self.IsPending i ∧ self.hashAt i ≠ some hash := by
  constructor
  · rintro ⟨other, hmem, hi⟩
    obtain ⟨hmem, hne⟩ : other ∈ self.pending ∧ other ≠ hash := by
      simpa [removePending] using hmem
    refine ⟨⟨other, hmem, hi⟩, fun heq => hne ?_⟩
    exact Option.some.inj (hi.symm.trans heq)
  · rintro ⟨⟨other, hmem, hi⟩, hne⟩
    refine ⟨other, ?_, hi⟩
    have hother : other ≠ hash := fun heq => hne (heq ▸ hi)
    simpa [removePending] using ⟨hmem, hother⟩

theorem hasReceipt_addReceipt :
    (self.addReceipt receipt).HasReceipt i ↔
      self.HasReceipt i ∨ self.hashAt i = some receipt.transactionHash := by
  constructor
  · rintro ⟨other, hmem, hi⟩
    rcases List.mem_append.mp hmem with hmem | hmem
    · exact .inl ⟨other, hmem, hi⟩
    · rw [List.mem_singleton.mp hmem] at hi
      exact .inr hi
  · rintro (⟨other, hmem, hi⟩ | hi)
    · exact ⟨other, List.mem_append_left _ hmem, hi⟩
    · exact ⟨receipt, List.mem_append_right _ (List.mem_singleton_self _), hi⟩

/-- A transaction that nothing with a receipt comes after is lost. -/
theorem Ordered.removePending (h : self.Ordered)
    (hlost : ∀ i, self.hashAt i = some hash → ∀ j > i, ¬self.HasReceipt j) :
    (self.removePending hash).Ordered where
  receipts_nodup := h.receipts_nodup
  receipts_known := h.receipts_known
  pending_known other hother := h.pending_known other (List.mem_of_mem_filter hother)
  distinct := h.distinct
  disjoint receipt hr hmem := h.disjoint receipt hr (List.mem_of_mem_filter hmem)
  ordered i j hij hj := by
    rcases h.ordered i j hij hj with hi | hi
    · exact .inl hi
    · refine .inr (isPending_removePending.mpr ⟨hi, fun heq => ?_⟩)
      exact hlost i heq j hij hj

/-- A pending transaction succeeds, and all before it have a receipt or are pending. -/
theorem Ordered.success (h : self.Ordered)
    (hpending : receipt.transactionHash ∈ self.pending)
    (hbefore : ∀ i, self.hashAt i = some receipt.transactionHash →
      ∀ j < i, self.HasReceipt j ∨ self.IsPending j) :
    ((self.removePending receipt.transactionHash).addReceipt receipt).Ordered where
  receipts_nodup := by
    have hnew : ∀ other ∈ self.receipts, other.transactionHash ≠ receipt.transactionHash :=
      fun other hother heq => h.disjoint other hother (heq ▸ hpending)
    simp only [addReceipt, ScriptSequence.removePending, List.map_append, List.map_cons,
      List.map_nil]
    refine List.nodup_append.mpr ⟨h.receipts_nodup, List.nodup_singleton _, ?_⟩
    simpa using hnew
  receipts_known other hother := by
    rcases List.mem_append.mp hother with hmem | hmem
    · exact h.receipts_known other hmem
    · rw [List.mem_singleton.mp hmem]
      exact h.pending_known _ hpending
  pending_known other hother := h.pending_known other (List.mem_of_mem_filter hother)
  distinct := h.distinct
  disjoint other hother hmem := by
    obtain ⟨hmem, hne⟩ := List.mem_filter.mp hmem
    rcases List.mem_append.mp hother with hold | hold
    · exact h.disjoint other hold hmem
    · rw [List.mem_singleton.mp hold] at hne
      simp at hne
  ordered i j hij hj := by
    have hprevious : self.HasReceipt i ∨ self.IsPending i := by
      rcases hasReceipt_addReceipt.mp hj with hj | hj
      · exact h.ordered i j hij hj
      · exact hbefore j hj i hij
    by_cases hi : self.hashAt i = some receipt.transactionHash
    · exact .inl (hasReceipt_addReceipt.mpr (.inr hi))
    · refine hprevious.imp (fun hr => hasReceipt_addReceipt.mpr (.inl hr)) fun hp => ?_
      exact isPending_removePending.mpr ⟨hp, hi⟩

theorem Ordered.check (h : self.Ordered) (hpending : hash ∈ self.pending) (hfor : outcome.For hash)
    (horderly : orderly.check self hash outcome) : (self.check hash outcome).Ordered := by
  cases outcome with
  | success receipt =>
    cases hfor
    exact h.success hpending horderly
  | revert receipt =>
    cases hfor
    exact h.removePending horderly
  | dropped | pendingReceipt => exact h.removePending horderly
  | error message => exact h

/-- A check gives a receipt, or takes pending away, only where the transaction was pending. -/
theorem untouched_check (hpending : hash ∈ self.pending) (hfor : outcome.For hash)
    (h : ¬self.HasReceipt i ∧ ¬self.IsPending i) :
    ¬(self.check hash outcome).HasReceipt i ∧ ¬(self.check hash outcome).IsPending i := by
  have hne : self.hashAt i ≠ some hash := fun heq => h.2 ⟨hash, hpending, heq⟩
  have hremoved : ¬(self.removePending hash).IsPending i := fun hp =>
    h.2 (isPending_removePending.mp hp).1
  cases outcome with
  | success receipt =>
    cases hfor
    exact ⟨fun hr => (hasReceipt_addReceipt.mp hr).elim h.1 hne, hremoved⟩
  | revert receipt =>
    cases hfor
    exact ⟨h.1, hremoved⟩
  | dropped => exact ⟨h.1, hremoved⟩
  | pendingReceipt => exact ⟨h.1, hremoved⟩
  | error message => exact h

/-! ### Sends -/

section

variable (hindex : index < self.transactions.length)
  (huntouched : ¬self.HasReceipt index ∧ ¬self.IsPending index)
  (hdistinct : ∀ i ≠ index, self.hashAt i ≠ some hash)

include huntouched hdistinct

/-- The hash of what is sent is neither pending nor that of a receipt. -/
theorem Ordered.fresh (h : self.Ordered) :
    hash ∉ self.pending ∧ ∀ receipt ∈ self.receipts, receipt.transactionHash ≠ hash := by
  have hposition : ∀ i, self.hashAt i = some hash → i = index := fun i hi =>
    by_contra fun hne => hdistinct i hne hi
  constructor
  · intro hmem
    obtain ⟨i, hi⟩ := h.pending_known hash hmem
    exact huntouched.2 ⟨hash, hmem, hposition i hi ▸ hi⟩
  · rintro receipt hreceipt rfl
    obtain ⟨i, hi⟩ := h.receipts_known receipt hreceipt
    exact huntouched.1 ⟨receipt, hreceipt, hposition i hi ▸ hi⟩

include hindex

variable (h : self.Ordered)
include h

theorem Ordered.hasReceipt_addPending :
    (self.addPending index hash).HasReceipt i ↔ self.HasReceipt i := by
  obtain ⟨hnew, hother⟩ := h.fresh huntouched hdistinct
  simp only [HasReceipt, receipts_addPending, hashAt_addPending hindex hnew]
  refine exists_congr fun receipt => and_congr_right fun hreceipt => ?_
  by_cases hi : i = index
  · subst hi
    rw [if_pos rfl]
    refine iff_of_false (fun heq => hother receipt hreceipt (Option.some.inj heq).symm)
      fun heq => ?_
    exact huntouched.1 ⟨receipt, hreceipt, heq⟩
  · rw [if_neg hi]

theorem Ordered.isPending_addPending :
    (self.addPending index hash).IsPending i ↔ self.IsPending i ∨ i = index := by
  obtain ⟨hnew, -⟩ := h.fresh huntouched hdistinct
  have hpending : (self.addPending index hash).pending = self.pending ++ [hash] := by
    simp [addPending, hnew]
  simp only [IsPending, hpending, hashAt_addPending hindex hnew]
  by_cases hi : i = index
  · subst hi
    exact iff_of_true ⟨hash, by simp, by simp⟩ (.inr rfl)
  · simp only [if_neg hi, or_iff_left hi]
    refine exists_congr fun other => and_congr_left fun hother => ?_
    rw [List.mem_append, List.mem_singleton, or_iff_left]
    rintro rfl
    exact hdistinct i hi hother

/-- A transaction that is sent becomes pending, after all that have a receipt. -/
theorem Ordered.addPending (hlast : ∀ i > index, ¬self.HasReceipt i) :
    (self.addPending index hash).Ordered := by
  obtain ⟨hnew, hother⟩ := h.fresh huntouched hdistinct
  have hpending : (self.addPending index hash).pending = self.pending ++ [hash] := by
    simp [ScriptSequence.addPending, hnew]
  have hkept : ∀ i other, self.hashAt i = some other → other ∈ self.pending ∨
      (∃ receipt ∈ self.receipts, receipt.transactionHash = other) →
      (self.addPending index hash).hashAt i = some other := by
    rintro i other hi hold
    rw [hashAt_addPending hindex hnew, if_neg]
    · exact hi
    · rintro rfl
      rcases hold with hold | ⟨receipt, hreceipt, rfl⟩
      · exact huntouched.2 ⟨other, hold, hi⟩
      · exact huntouched.1 ⟨receipt, hreceipt, hi⟩
  refine ⟨?_, ?_, ?_, ?_, ?_, ?_⟩
  · rw [receipts_addPending]
    exact h.receipts_nodup
  · intro receipt hreceipt
    rw [receipts_addPending] at hreceipt
    obtain ⟨i, hi⟩ := h.receipts_known receipt hreceipt
    exact ⟨i, hkept i _ hi (.inr ⟨receipt, hreceipt, rfl⟩)⟩
  · intro other hmem
    rw [hpending, List.mem_append, List.mem_singleton] at hmem
    rcases hmem with hmem | rfl
    · obtain ⟨i, hi⟩ := h.pending_known other hmem
      exact ⟨i, hkept i _ hi (.inl hmem)⟩
    · exact ⟨index, by rw [hashAt_addPending hindex hnew, if_pos rfl]⟩
  · intro i j other hi hj
    rw [hashAt_addPending hindex hnew] at hi hj
    split at hi <;> split at hj
    · simp_all
    · exact absurd (hj.trans hi.symm) (hdistinct j ‹_›)
    · exact absurd (hi.trans hj.symm) (hdistinct i ‹_›)
    · exact h.distinct i j other hi hj
  · intro receipt hreceipt
    rw [receipts_addPending] at hreceipt
    rw [hpending, List.mem_append, List.mem_singleton, not_or]
    exact ⟨h.disjoint receipt hreceipt, hother receipt hreceipt⟩
  · intro i j hij hj
    rw [h.hasReceipt_addPending hindex huntouched hdistinct] at hj ⊢
    rw [h.isPending_addPending hindex huntouched hdistinct]
    exact (h.ordered i j hij hj).imp_right .inl

end

/-! ### Resuming -/

variable (hpending : self.pending = []) (h : self.Ordered)
include hpending h

/-- With nothing pending, the transactions with a receipt come first. -/
theorem Ordered.hasReceipt_iff (i : Nat) : self.HasReceipt i ↔ i < self.receipts.length := by
  have hlower : IsLowerSet {i | self.HasReceipt i} := by
    intro j i hij hj
    rcases hij.lt_or_eq with hlt | rfl
    · refine (h.ordered i j hlt hj).resolve_right ?_
      rintro ⟨hash, hmem, -⟩
      simp [hpending] at hmem
    · exact hj
  have hbounded : ∀ i, self.HasReceipt i → i < self.transactions.length := fun i hi =>
    lt_of_hashAt hi.choose_spec.2
  rcases hlower.eq_univ_or_Iio with huniv | ⟨count, hcount⟩
  · have hmem : self.transactions.length ∈ {i | self.HasReceipt i} := huniv ▸ Set.mem_univ _
    exact absurd (hbounded _ hmem) (lt_irrefl _)
  · have hiff : ∀ i, self.HasReceipt i ↔ i < count := fun i => by
      rw [← Set.mem_Iio, ← hcount, Set.mem_ofPred_eq]
    -- The hashes of the first `count` transactions are those of the receipts.
    have hperm : ((List.range count).map self.hashAt).Perm
        (self.receipts.map fun receipt => some receipt.transactionHash) := by
      rw [List.perm_ext_iff_of_nodup]
      · intro hash
        simp only [List.mem_map, List.mem_range]
        constructor
        · rintro ⟨j, hj, rfl⟩
          obtain ⟨receipt, hreceipt, heq⟩ := (hiff j).mpr hj
          exact ⟨receipt, hreceipt, heq.symm⟩
        · rintro ⟨receipt, hreceipt, rfl⟩
          obtain ⟨j, hj⟩ := h.receipts_known receipt hreceipt
          exact ⟨j, (hiff j).mp ⟨receipt, hreceipt, hj⟩, hj⟩
      · refine List.nodup_range.map_on ?_
        intro j hj k _ heq
        obtain ⟨receipt, -, hhash⟩ := (hiff j).mpr (List.mem_range.mp hj)
        exact h.distinct j k _ hhash (heq ▸ hhash)
      · have hnodup := h.receipts_nodup.map (Option.some_injective _)
        rwa [List.map_map] at hnodup
    have hlength := hperm.length_eq
    simp only [List.length_map, List.length_range] at hlength
    rw [hiff, hlength]

theorem Ordered.length_receipts_le : self.receipts.length ≤ self.transactions.length := by
  by_contra hlt
  obtain ⟨receipt, -, hhash⟩ := (h.hasReceipt_iff hpending _).mpr (not_le.mp hlt)
  exact absurd (lt_of_hashAt hhash) (lt_irrefl _)

theorem Ordered.resumesAt : self.ResumesAt self.receipts.length := by
  refine ⟨h.hasReceipt_iff hpending, ?_⟩
  intro kind fees tasks htasks i hi
  have hmem : (∃ task ∈ tasks, task.position = i) ↔ i ∈ tasks.map (·.position) := by
    simp
  rw [hmem, RunArgs.positions_tasks htasks, h.hasReceipt_iff hpending, List.mem_range'_1]
  omega

end ScriptSequence

/-! ### Runs -/

/-- While sending, what is left has neither a receipt nor a pending hash. -/
def resuming : Invariant where
  saved _ sequence := sequence.Ordered
  sending _ sequence buffer loop :=
    sequence.Ordered ∧
      (∀ i ≥ loop.index, ¬sequence.HasReceipt i ∧ ¬sequence.IsPending i) ∧
      loop.index + buffer.length + loop.tasks.length ≤ sequence.transactions.length
  entry := Entry.Resumes

theorem resuming_kept : resuming.Kept orderly where
  saved_note _ h := h
  sending_note _ h := h
  saved_save h := h.save
  sending_save h := ⟨h.1.save, by simpa using h.2.1, h.2.2⟩
  saved_of_sending h := h.1
  already h hpending := h.resumesAt hpending
  begins {log sequence kind fees tasks} args h hpending htasks := by
    have hlength := congrArg List.length (RunArgs.positions_tasks htasks)
    simp only [List.length_map, List.length_range'] at hlength
    have hbound := h.length_receipts_le hpending
    refine ⟨h, ?_, ?_⟩
    · intro i hi
      refine ⟨fun hr => ?_, ?_⟩
      · exact absurd ((h.hasReceipt_iff hpending i).mp hr) (not_lt.mpr hi)
      · rintro ⟨hash, hmem, -⟩
        simp [hpending] at hmem
    · change sequence.receipts.length + 0 + tasks.length ≤ _
      omega
  batch {log sequence loop} h := by
    refine ⟨h.1, h.2.1, ?_⟩
    have hbound := h.2.2
    simp only [List.length_nil, List.length_take, List.length_drop] at hbound ⊢
    omega
  saved_check h _ hmem hfor hcheck := h.check hmem hfor hcheck
  sending_check {log sequence loop hash outcome} h _ hmem hfor hcheck := by
    refine ⟨h.1.check hmem hfor hcheck, ?_, ?_⟩
    · exact fun i hi => untouched_check hmem hfor (h.2.1 i hi)
    · cases outcome <;> exact h.2.2
  attempt _ _ _ := trivial
  retry {log sequence buffer loop slot task answers error} h htask := by
    have hslot : slot < buffer.length := (List.getElem?_eq_some_iff.mp htask).1
    refine ⟨h.1, h.2.1, ?_⟩
    have hbound := h.2.2
    simp only [List.length_append, List.length_eraseIdx, if_pos hslot, List.length_singleton]
    omega
  sent {log sequence buffer loop slot task answers hash} h htask hcomplete hrun := by
    have hslot : slot < buffer.length := (List.getElem?_eq_some_iff.mp htask).1
    obtain ⟨hordered, huntouched, hbound⟩ := h
    have hindex : loop.index < sequence.transactions.length := by omega
    have hhere := huntouched loop.index le_rfl
    obtain ⟨-, hdistinct⟩ := hcomplete hash hrun
    have hnone : ∀ i > loop.index, ¬sequence.HasReceipt i := fun i hi => (huntouched i hi.le).1
    refine ⟨(hordered.addPending hindex hhere hdistinct hnone).save, ?_, ?_⟩
    · intro i hi
      rw [hasReceipt_save, isPending_save,
        hordered.hasReceipt_addPending hindex hhere hdistinct,
        hordered.isPending_addPending hindex hhere hdistinct, not_or]
      have hlater : loop.index < i := hi
      exact ⟨hnone i hlater, (huntouched i hlater.le).2, hlater.ne'⟩
    · rw [transactions_save, length_addPending,
        List.length_eraseIdx, if_pos hslot]
      change loop.index + 1 + (buffer.length - 1) + loop.tasks.length ≤ _
      omega

/-- **Resuming.** In every history whose outcomes come in order, every run skips what has a receipt
and sends everything else. A run begins at the number of receipts, wherever the transactions are
that they belong to. -/
theorem resumes_of_orderly {transactions : List TransactionWithMetadata} {chain : UInt64}
    {events : List Event} {m : Machine}
    (h : Run (Guarded orderly.Meets Machine.Step) (Machine.initial transactions chain) events m) :
    ∀ e ∈ m.log, e.Resumes := by
  refine (resuming_kept.run (Invariant.holds_initial ?_) h).entries
  have hnone : ∀ i hash, (initial transactions chain).saved.hashAt i ≠ some hash := by
    intro i hash hi
    simp [initial, hashAt, Option.bind_eq_some_iff] at hi
  refine ⟨List.nodup_nil, by simp [initial], by simp [initial], ?_,
    by simp [initial], ?_⟩
  · exact fun i j hash hi => absurd hi (hnone i hash)
  · rintro i j - ⟨receipt, hreceipt, -⟩
    exact absurd hreceipt List.not_mem_nil

/-- A receipt in block 1. -/
def sampleReceipt (hash : TxHash) (index : UInt64) : Receipt where
  transactionHash := hash
  blockNumber := some 1
  transactionIndex := some index

/-- Both transactions are sent, in order. -/
def sampleSends : List Event :=
  [.start sampleArgs, .complete 0 (accepting 0xaa), .complete 0 (accepting 0xbb)]

/-- Where that leads. -/
def sampleSent : Machine :=
  (sampleSends.foldlM Machine.step (Machine.initial samplePair 1)).getD
    (Machine.initial samplePair 1)

theorem hashAt_ne_of_lt {sequence : ScriptSequence} {index : Nat} {hash : TxHash}
    (h : ∀ i < sequence.transactions.length, i ≠ index → sequence.hashAt i ≠ some hash) :
    ∀ i ≠ index, sequence.hashAt i ≠ some hash :=
  fun i hi heq => h i (lt_of_hashAt heq) hi heq

theorem sampleSent_run :
    Run (Guarded orderly.Meets Step) (initial samplePair 1) sampleSends
      sampleSent := by
  refine .cons ⟨trivial, rfl⟩ (.cons ⟨?_, rfl⟩ (.cons ⟨?_, rfl⟩ .nil))
  · intro task htask hash hrun
    cases htask
    cases hrun
    exact ⟨rfl, hashAt_ne_of_lt (by decide)⟩
  · intro task htask hash hrun
    cases htask
    cases hrun
    exact ⟨rfl, hashAt_ne_of_lt (by decide)⟩

theorem orderly_success {sequence : ScriptSequence} {hash : TxHash}
    (h : ∀ i < sequence.transactions.length, sequence.hashAt i = some hash →
      ∀ j < i, sequence.HasReceipt j ∨ sequence.IsPending j) :
    orderly.check sequence hash (.success receipt) :=
  fun i hi => h i (lt_of_hashAt hi) hi

/-- Both transactions get their receipts, and the next run has nothing to send. -/
theorem resumes_of_orderly_pair :
    ∃ m, Run (Guarded orderly.Meets Machine.Step) (Machine.initial samplePair 1)
        (sampleSends ++ [.check 0xaa (.success (sampleReceipt 0xaa 0)),
          .check 0xbb (.success (sampleReceipt 0xbb 1)), .start sampleArgs]) m ∧
      m.log.length = 4 ∧ ∀ e ∈ m.log, e.Resumes := by
  have hrun : ∃ m, Run (Guarded orderly.Meets Step) sampleSent
      [.check 0xaa (.success (sampleReceipt 0xaa 0)),
        .check 0xbb (.success (sampleReceipt 0xbb 1)), .start sampleArgs] m ∧
      m.log.length = 4 :=
    ⟨_, .cons ⟨orderly_success (by decide), rfl⟩ (.cons ⟨orderly_success (by decide), rfl⟩
      (.cons ⟨trivial, rfl⟩ .nil)), rfl⟩
  obtain ⟨m, hm, hlength⟩ := hrun
  exact ⟨m, sampleSent_run.append hm, hlength, resumes_of_orderly (sampleSent_run.append hm)⟩

theorem meets_recordsRight {m : Machine} {event : Event} :
    orderly.Meets m event → recordsRight.Meets m event := by
  unfold Conditions.Meets
  split
  · exact fun _ => trivial
  · exact id
  · exact id

/-- The first of two transactions is dropped, and the second one succeeds. The next run counts one
receipt: it would send the second transaction again, and never the first one. -/
theorem not_resumes :
    ∃ transactions chain events m,
      Run (Guarded recordsRight.Meets Machine.Step) (Machine.initial transactions chain) events m ∧
      ¬∀ e ∈ m.log, e.Resumes := by
  have hrun : ∃ m, Run (Guarded recordsRight.Meets Step) sampleSent
      [.check 0xaa .dropped, .check 0xbb (.success (sampleReceipt 0xbb 1)), .start sampleArgs] m ∧
      ¬∀ e ∈ m.log, e.Resumes := by
    refine ⟨_, .cons ⟨trivial, rfl⟩ (.cons ⟨trivial, rfl⟩ (.cons ⟨trivial, rfl⟩ .nil)), ?_⟩
    intro h
    have hresumes := h (.already 1 _) (List.mem_append_right _ List.mem_cons_self)
    exact absurd ((hresumes.receipts 0).mpr Nat.zero_lt_one) (by decide)
  obtain ⟨m, hm, hnot⟩ := hrun
  have hsent := sampleSent_run.mono fun _ _ _ hs => (⟨meets_recordsRight hs.1, hs.2⟩ :
    Guarded recordsRight.Meets Step _ _ _)
  exact ⟨samplePair, 1, _, m, hsent.append hm, hnot⟩

end BaseAnvil.Script
