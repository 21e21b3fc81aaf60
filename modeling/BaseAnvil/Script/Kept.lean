import BaseAnvil.Script.Broadcast

/-!
# BaseAnvil.Script.Kept

One rule for what every run of a broadcast keeps.

The functions a step goes through (a check completes, the wait ends, the next batch begins) are
taken apart here, once. An invariant is given by what holds of a saved sequence and by what holds
while a batch is being sent; `Kept` lists what has to be shown about the changes to a sequence.
-/

namespace BaseAnvil.Script

open Lib ScriptSequence Machine
open Pool (TxHash)

/-- Conditions on the events of a run, on what the program has in memory before them. -/
structure Conditions where
  check : ScriptSequence → TxHash → Outcome → Prop
  complete : ScriptSequence → List Task → Loop → Task → Answers → Prop

/-- The event meets the conditions. -/
def Conditions.Meets (c : Conditions) (m : Machine) (event : Event) : Prop :=
  match event, m.process with
  | .check hash outcome, some ⟨_, sequence, .waiting _ _ _⟩ => c.check sequence hash outcome
  | .complete slot answers, some ⟨_, sequence, .sending buffer loop⟩ =>
    ∀ task, buffer[slot]? = some task → c.complete sequence buffer loop task answers
  | _, _ => True

/-- The attempts have a property. -/
def Conditions.ofEntry (P : Entry → Prop) : Conditions where
  check _ _ _ := True
  complete _ _ loop task answers := P (.attempt loop.index loop.options task answers)

/-- All events. -/
def Conditions.any : Conditions := .ofEntry fun _ => True

theorem Conditions.meets_any (m : Machine) (event : Event) : any.Meets m event := by
  unfold Meets
  split
  · trivial
  · exact fun _ _ => trivial
  · trivial

/-- What an invariant says, given the log. -/
structure Invariant where
  saved : List Entry → ScriptSequence → Prop
  sending : List Entry → ScriptSequence → List Task → Loop → Prop
  entry : Entry → Prop

/-- What is to be shown for an invariant. -/
structure Invariant.Kept (I : Invariant) (c : Conditions) : Prop where
  saved_note {log sequence} (e : Entry) : I.saved log sequence → I.saved (log ++ [e]) sequence
  sending_note {log sequence buffer loop} (e : Entry) :
    I.sending log sequence buffer loop → I.sending (log ++ [e]) sequence buffer loop
  saved_save {log sequence} : I.saved log sequence → I.saved log sequence.save
  sending_save {log sequence buffer loop} :
    I.sending log sequence buffer loop → I.sending log sequence.save buffer loop
  saved_of_sending {log sequence buffer loop} :
    I.sending log sequence buffer loop → I.saved log sequence
  already {log sequence} : I.saved log sequence → sequence.pending = [] →
    I.entry (.already sequence.receipts.length sequence)
  begins {log sequence kind fees tasks} (args : RunArgs) :
    I.saved log sequence → sequence.pending = [] →
    RunArgs.tasks sequence kind fees sequence.receipts.length = .ok tasks →
    I.sending log sequence [] (args.loop sequence sequence.receipts.length tasks)
  batch {log sequence loop} : I.sending log sequence [] loop →
    I.sending log sequence (loop.tasks.take loop.batchSize)
      { loop with tasks := loop.tasks.drop loop.batchSize }
  saved_check {log sequence hash outcome} : I.saved log sequence → sequence.pending.Nodup →
    hash ∈ sequence.pending → outcome.For hash → c.check sequence hash outcome →
    I.saved log (sequence.check hash outcome)
  sending_check {log sequence loop hash outcome} : I.sending log sequence [] loop →
    sequence.pending.Nodup → hash ∈ sequence.pending → outcome.For hash →
    c.check sequence hash outcome → I.sending log (sequence.check hash outcome) [] loop
  attempt {log sequence buffer loop task answers} : I.sending log sequence buffer loop →
    task ∈ buffer → c.complete sequence buffer loop task answers →
    I.entry (.attempt loop.index loop.options task answers)
  retry {log sequence buffer loop slot task answers error} :
    I.sending log sequence buffer loop → buffer[slot]? = some task →
    I.sending log sequence (buffer.eraseIdx slot ++ [task.retry answers error]) loop
  sent {log sequence buffer loop slot task answers hash} : I.sending log sequence buffer loop →
    buffer[slot]? = some task → c.complete sequence buffer loop task answers →
    (task.run loop.options answers).1 = .ok hash →
    I.sending (log ++ [.attempt loop.index loop.options task answers])
      (sequence.addPending loop.index hash).save (buffer.eraseIdx slot)
      { loop with index := loop.index + 1 }

/-! ### Tasks -/

namespace RunArgs

variable {sequence : ScriptSequence} {kind : SendTransactionsKind} {fees : Fees} {chain : UInt64}
  {already : Nat}

/-- A task is made for its position, and was not attempted. -/
theorem exists_of_task {entry : TransactionWithMetadata × Nat} {t : Task}
    (h : task kind fees chain entry = .ok t) :
    ∃ k, t = ⟨entry.2, k, entry.1.isFixedGasLimit, 0, none, []⟩ ∧
      ((∃ tx, entry.1.transaction = .signed tx ∧ k = .signed tx) ∨
        ∃ tx, entry.1.transaction = .unsigned tx ∧
          kind.forSender tx.sender (complete chain fees tx) = .ok k) := by
  unfold task at h
  split at h
  · rename_i tx htx
    cases h
    exact ⟨_, rfl, .inl ⟨tx, htx, rfl⟩⟩
  · rename_i tx htx
    cases hkind : kind.forSender tx.sender (complete chain fees tx) with
    | error e => simp [hkind, Except.map] at h
    | ok k =>
      simp only [hkind, Except.map, Except.ok.injEq] at h
      exact ⟨k, h.symm, .inr ⟨tx, htx, hkind⟩⟩

variable {tasks : List Task}

theorem of_mapM_task {entries : List (TransactionWithMetadata × Nat)}
    (h : entries.mapM (task kind fees chain) = .ok tasks) :
    List.Forall₂ (fun entry t => task kind fees chain entry = .ok t) entries tasks := by
  induction entries generalizing tasks with
  | nil =>
    cases h
    exact .nil
  | cons entry entries ih =>
    rw [List.mapM_cons] at h
    cases ht : task kind fees chain entry with
    | error e => simp [ht, bind, Except.bind] at h
    | ok t =>
      cases hrest : entries.mapM (task kind fees chain) with
      | error e => simp [ht, hrest, bind, Except.bind] at h
      | ok rest =>
        simp only [ht, hrest, bind, Except.bind, pure, Except.pure, Except.ok.injEq] at h
        rw [← h]
        exact .cons ht (ih hrest)

variable (h : RunArgs.tasks sequence kind fees already = .ok tasks)
include h

/-- There is a task for every transaction but the first ones, in their order. -/
theorem positions_tasks :
    tasks.map (·.position) = List.range' already (sequence.transactions.length - already) := by
  have hpositions : List.Forall₂ (fun entry t => Prod.snd entry = t.position)
      (sequence.transactions.zipIdx.drop already) tasks :=
    (of_mapM_task h).imp fun entry t ht => by
      obtain ⟨k, rfl, -⟩ := exists_of_task ht
      rfl
  have heq : (sequence.transactions.zipIdx.drop already).map Prod.snd = tasks.map (·.position) := by
    rw [← List.forall₂_eq_eq_eq, List.forall₂_map_left_iff, List.forall₂_map_right_iff]
    exact hpositions
  rw [← heq, List.map_drop, List.zipIdx_map_snd, List.drop_range']
  simp

theorem exists_mem_of_tasks {t : Task} (ht : t ∈ tasks) :
    ∃ entry ∈ sequence.transactions.zipIdx, task kind fees sequence.chain entry = .ok t := by
  have hall := of_mapM_task h
  suffices hmem : ∃ entry ∈ sequence.transactions.zipIdx.drop already,
      task kind fees sequence.chain entry = .ok t by
    obtain ⟨entry, hentry, htask⟩ := hmem
    exact ⟨entry, List.mem_of_mem_drop hentry, htask⟩
  clear h
  generalize sequence.transactions.zipIdx.drop already = entries at hall
  induction hall with
  | nil => exact absurd ht List.not_mem_nil
  | cons hhead _ ih =>
    rcases List.mem_cons.mp ht with rfl | hmem
    · exact ⟨_, List.mem_cons_self, hhead⟩
    · obtain ⟨entry, hentry, htask⟩ := ih hmem
      exact ⟨entry, List.mem_cons_of_mem _ hentry, htask⟩

end RunArgs

variable {remaining : List TxHash} {failed : Bool} {events : List Event} {outcome : Outcome}
  {m₀ : Machine}

namespace Machine

/-! ### Steps -/

variable {m m' : Machine} {args : RunArgs} {sequence : ScriptSequence} {event : Event}

/-- Everything that can happen. -/
theorem step_cases (h : m.step event = some m') :
    (∃ args, event = .start args ∧ m.process = none ∧ m' = m.startWait args m.saved none) ∨
    (∃ hash outcome args sequence remaining failed loop, event = .check hash outcome ∧
      m.process = some ⟨args, sequence, .waiting remaining failed loop⟩ ∧ hash ∈ remaining ∧
      outcome.For hash ∧ m' = m.checked args sequence remaining failed loop hash outcome) ∨
    (∃ slot answers args sequence buffer loop task, event = .complete slot answers ∧
      m.process = some ⟨args, sequence, .sending buffer loop⟩ ∧ buffer[slot]? = some task ∧
      m' = m.completed args sequence buffer loop slot task answers) ∨
    (∃ process, event = .quit ∧ m.process = some process ∧ m' = m.stop process.sequence) ∨
    (∃ process, event = .kill ∧ m.process = some process ∧ m' = { m with process := none }) := by
  unfold step at h
  split at h
  · rename_i args hprocess
    cases h
    exact .inl ⟨args, rfl, hprocess, rfl⟩
  · rename_i hash outcome args sequence remaining failed loop hprocess
    split at h
    · rename_i hhash
      cases h
      exact .inr (.inl ⟨hash, outcome, args, sequence, remaining, failed, loop, rfl, hprocess,
        List.mem_of_mem_take (List.contains_iff_mem.mp hhash.1), hhash.2, rfl⟩)
    · cases h
  · rename_i slot answers args sequence buffer loop hprocess
    obtain ⟨task, htask, rfl⟩ := Option.map_eq_some_iff.mp h
    exact .inr (.inr (.inl ⟨slot, answers, args, sequence, buffer, loop, task, rfl, hprocess,
      htask, rfl⟩))
  · rename_i process hprocess
    cases h
    exact .inr (.inr (.inr (.inl ⟨process, rfl, hprocess, rfl⟩)))
  · rename_i process hprocess
    cases h
    exact .inr (.inr (.inr (.inr ⟨process, rfl, hprocess, rfl⟩)))
  · cases h

theorem step_deterministic (m : Machine) (event : Event) (m₁ m₂ : Machine) (h₁ : Step m event m₁)
    (h₂ : Step m event m₂) : m₁ = m₂ :=
  Option.some.inj (h₁.symm.trans h₂)

/-! ### The log -/

/-- What an attempt adds to the log. -/
def noted (m : Machine) (event : Event) : List Entry :=
  match event, m.process with
  | .complete slot answers, some ⟨_, _, .sending buffer loop⟩ =>
    match buffer[slot]? with
    | none => []
    | some task => [.attempt loop.index loop.options task answers]
  | _, _ => []

/-- Nothing but `already` was logged. -/
def Quiet (log : List Entry) (m : Machine) : Prop :=
  ∃ entries, m.log = log ++ entries ∧ ∀ e ∈ entries, ∃ count sequence, e = .already count sequence

theorem quiet_of_eq {log : List Entry} (h : m.log = log) : Quiet log m :=
  ⟨[], by simp [h], by simp⟩

theorem quiet_nextBatch {loop : Loop} : Quiet m.log (m.nextBatch args sequence loop) := by
  unfold nextBatch
  split <;> exact quiet_of_eq rfl

theorem quiet_beginBroadcast : Quiet m.log (m.beginBroadcast args sequence) := by
  have hnoted (m₁ : Machine)
      (h : m₁.log = (m.note (.already sequence.receipts.length sequence)).log) : Quiet m.log m₁ :=
    ⟨[_], h, fun e he => ⟨_, _, List.mem_singleton.mp he⟩⟩
  unfold beginBroadcast
  split
  · exact quiet_of_eq rfl
  · dsimp only
    split
    · split
      · exact hnoted _ rfl
      · split
        · exact hnoted _ rfl
        · unfold nextBatch
          split <;> exact hnoted _ rfl
    · exact hnoted _ rfl

theorem quiet_finishWait {loop : Option Loop} :
    Quiet m.log (m.finishWait args sequence failed loop) := by
  unfold finishWait
  split
  · exact quiet_of_eq rfl
  · cases loop with
    | none => exact @quiet_beginBroadcast { m with saved := sequence.save } args sequence.save
    | some loop => exact @quiet_nextBatch { m with saved := sequence.save } args sequence.save loop

theorem quiet_startWait {loop : Option Loop} : Quiet m.log (m.startWait args sequence loop) := by
  unfold startWait
  split
  · exact quiet_finishWait
  · exact quiet_of_eq rfl

theorem quiet_checked {loop : Option Loop} {hash : TxHash} :
    Quiet m.log (m.checked args sequence remaining failed loop hash outcome) := by
  unfold checked
  dsimp only
  split
  · exact quiet_finishWait
  · exact quiet_of_eq rfl

theorem quiet_sent {rest : List Task} {loop : Loop} {hash : TxHash} :
    Quiet m.log (m.sent args sequence rest loop hash) := by
  unfold sent
  split
  · exact @quiet_startWait { m with saved := (sequence.addPending loop.index hash).save } _ _ _
  · exact quiet_of_eq rfl

/-- The log after a step. -/
theorem quiet_step (h : Step m event m') : Quiet (m.log ++ m.noted event) m' := by
  obtain ⟨args, rfl, hprocess, rfl⟩ |
    ⟨hash, outcome, args, sequence, remaining, failed, loop, rfl, hprocess, -, -, rfl⟩ |
    ⟨slot, answers, args, sequence, buffer, loop, task, rfl, hprocess, htask, rfl⟩ |
    ⟨process, rfl, hprocess, rfl⟩ | ⟨process, rfl, hprocess, rfl⟩ := step_cases h
  · simpa [noted] using quiet_startWait
  · simpa [noted, hprocess] using quiet_checked
  · simp only [noted, hprocess, htask]
    unfold completed
    split
    · exact @quiet_sent (m.note (.attempt loop.index loop.options task answers)) _ _ _ _ _
    · split <;> exact quiet_of_eq rfl
  · exact quiet_of_eq (by simp [noted, stop])
  · exact quiet_of_eq (by simp [noted])

variable {P : Entry → Prop}

/-- What a step adds to the log has a property, if `already` always does. -/
theorem forall_log_step_iff (hP : ∀ count sequence, P (.already count sequence))
    (h : Step m event m') :
    (∀ e ∈ m'.log, P e) ↔ (∀ e ∈ m.log, P e) ∧ ∀ e ∈ m.noted event, P e := by
  obtain ⟨entries, hlog, hentries⟩ := quiet_step h
  have hall : ∀ e ∈ entries, P e := by
    intro e he
    obtain ⟨count, sequence, rfl⟩ := hentries e he
    exact hP count sequence
  rw [hlog]
  simp only [List.forall_mem_append, and_iff_left hall]

open Conditions

theorem forall_noted_iff : (∀ e ∈ m.noted event, P e) ↔ (ofEntry P).Meets m event := by
  rcases hprocess : m.process with _ | ⟨args, sequence, phase⟩
  · cases event <;> simp [noted, Conditions.Meets, hprocess]
  · cases phase with
    | waiting remaining failed loop =>
      cases event <;> simp [noted, Conditions.Meets, hprocess, ofEntry]
    | sending buffer loop =>
      cases event with
      | complete slot answers =>
        cases htask : buffer[slot]? <;>
          simp [noted, Conditions.Meets, hprocess, ofEntry, htask]
      | _ => simp [noted, Conditions.Meets, hprocess]

/-- The log tells whether the attempts along a run had a property. -/
theorem forall_log_iff_along (hP : ∀ count sequence, P (.already count sequence)) (h₀ : m₀.log = [])
    (h : Run Step m₀ events m) :
    (∀ e ∈ m.log, P e) ↔ Run.Along Step m₀ events (ofEntry P).Meets := by
  refine h.along_iff_of_step (G := fun m => ∀ e ∈ m.log, P e) step_deterministic ?_ ?_
  · simp [h₀]
  · intro m event m' hstep
    rw [forall_log_step_iff hP hstep, forall_noted_iff]

end Machine

/-! ### The rule -/

variable {I : Invariant} {c : Conditions}

/-- What is left to check is pending, and if there was no error so far nothing else is. -/
structure Checking (sequence : ScriptSequence) (remaining : List TxHash) (failed : Bool) :
    Prop where
  nodup : remaining.Nodup
  subset : remaining ⊆ sequence.pending
  exhausts : failed = false → sequence.pending ⊆ remaining

namespace ScriptSequence

variable {self : ScriptSequence} {hash h : TxHash}

/-- A check leaves the other hashes pending, and its own one only on an error. -/
theorem mem_pending_check (hfor : outcome.For hash) :
    h ∈ (self.check hash outcome).pending ↔
      h ∈ self.pending ∧ (h = hash → ∃ message, outcome = .error message) := by
  cases outcome with
  | success receipt =>
    cases hfor
    simp [check, removePending, addReceipt]
  | revert receipt =>
    cases hfor
    simp [check, removePending]
  | dropped | pendingReceipt => simp [check, removePending]
  | error message => simp [check]

theorem nodup_pending_check (hnodup : self.pending.Nodup) :
    (self.check hash outcome).pending.Nodup := by
  cases outcome with
  | error message => exact hnodup
  | _ => exact hnodup.filter _

theorem nodup_pending_addPending {index : Nat} (hnodup : self.pending.Nodup) :
    (self.addPending index hash).pending.Nodup := by
  unfold addPending
  split
  · exact hnodup
  · rename_i hnew
    exact List.nodup_append.mpr ⟨hnodup, List.nodup_singleton _, by
      simpa using fun a ha (heq : a = hash) => hnew (heq ▸ ha)⟩

end ScriptSequence

theorem Checking.check {sequence : ScriptSequence} {hash : TxHash}
    (h : Checking sequence remaining failed) (hfor : outcome.For hash) :
    Checking (sequence.check hash outcome) (remaining.erase hash) (failed || outcome.isError) := by
  refine ⟨h.nodup.erase hash, ?_, ?_⟩
  · intro x hx
    have hx' := (h.nodup.mem_erase_iff).mp hx
    exact (mem_pending_check hfor).mpr ⟨h.subset hx'.2, fun heq => absurd heq hx'.1⟩
  · intro hfailed x hx
    obtain ⟨hmem, hself⟩ := (mem_pending_check hfor).mp hx
    rw [Bool.or_eq_false_iff] at hfailed
    refine h.nodup.mem_erase_iff.mpr ⟨?_, h.exhausts hfailed.1 hmem⟩
    intro heq
    obtain ⟨message, rfl⟩ := hself heq
    exact absurd hfailed.2 (by simp [Outcome.isError])

namespace Invariant

/-- The invariant, while nothing is being sent. -/
def Between (I : Invariant) (log : List Entry) (sequence : ScriptSequence) : Option Loop → Prop
  | none => I.saved log sequence
  | some loop => I.sending log sequence [] loop

/-- The invariant, for what the process has in memory. -/
def During (I : Invariant) (log : List Entry) (sequence : ScriptSequence) : Phase → Prop
  | .waiting remaining failed loop =>
    I.Between log sequence loop ∧ Checking sequence remaining failed
  | .sending buffer loop => I.sending log sequence buffer loop

/-- The invariant, for the file and the log. -/
structure Stored (I : Invariant) (m : Machine) : Prop where
  saved : I.saved m.log m.saved
  nodup : m.saved.pending.Nodup
  entries : ∀ e ∈ m.log, I.entry e

/-- The invariant of the machine. -/
structure Holds (I : Invariant) (m : Machine) : Prop extends I.Stored m where
  process : ∀ p, m.process = some p →
    p.sequence.pending.Nodup ∧ I.During m.log p.sequence p.phase

variable {m : Machine} {args : RunArgs} {sequence : ScriptSequence} {loop : Loop}

theorem Stored.idle (h : I.Stored m) : I.Holds { m with process := none } :=
  ⟨⟨h.saved, h.nodup, h.entries⟩, fun _ hp => absurd hp (by simp)⟩

theorem Stored.goOn {phase : Phase} (h : I.Stored m) (hnodup : sequence.pending.Nodup)
    (hphase : I.During m.log sequence phase) : I.Holds (m.goOn args sequence phase) := by
  refine ⟨⟨h.saved, h.nodup, h.entries⟩, ?_⟩
  intro p hp
  cases hp
  exact ⟨hnodup, hphase⟩

namespace Kept

variable (hk : I.Kept c)

include hk

theorem between_saved {loop : Option Loop} {log : List Entry} (h : I.Between log sequence loop) :
    I.saved log sequence := by
  cases loop with
  | none => exact h
  | some loop => exact hk.saved_of_sending h

section

variable (h : I.Stored m)
include h

theorem store (hnodup : sequence.pending.Nodup) (hsaved : I.saved m.log sequence) :
    I.Stored { m with saved := sequence.save } :=
  ⟨hk.saved_save hsaved, hnodup, h.entries⟩

theorem note {e : Entry} (he : I.entry e) : I.Stored (m.note e) := by
  refine ⟨hk.saved_note e h.saved, h.nodup, ?_⟩
  intro e' he'
  rcases List.mem_append.mp he' with hmem | hmem
  · exact h.entries e' hmem
  · rw [List.mem_singleton.mp hmem]
    exact he

theorem stop (hnodup : sequence.pending.Nodup) (hsaved : I.saved m.log sequence) :
    I.Holds (m.stop sequence) :=
  (hk.store h hnodup hsaved).idle

theorem nextBatch (hnodup : sequence.pending.Nodup) (hsending : I.sending m.log sequence [] loop) :
    I.Holds (m.nextBatch args sequence loop) := by
  unfold Machine.nextBatch
  split
  · exact hk.stop h hnodup (hk.saved_of_sending hsending)
  · exact h.goOn hnodup (hk.batch hsending)

theorem beginBroadcast (hsaved : I.saved m.log sequence) (hpending : sequence.pending = []) :
    I.Holds (m.beginBroadcast args sequence) := by
  have hnodup : sequence.pending.Nodup := by simp [hpending]
  have hnoted := hk.note h (hk.already hsaved hpending)
  have hsaved' := hk.saved_note (.already sequence.receipts.length sequence) hsaved
  unfold Machine.beginBroadcast
  split
  · exact hk.stop h hnodup hsaved
  · dsimp only
    split
    · split
      · exact hk.stop hnoted hnodup hsaved'
      · split
        · exact hk.stop hnoted hnodup hsaved'
        · rename_i htasks
          exact hk.nextBatch hnoted hnodup (hk.begins args hsaved' hpending htasks)
    · exact hk.stop hnoted hnodup hsaved'

variable (hnodup : sequence.pending.Nodup)
include hnodup

theorem finishWait {loop : Option Loop} (hbetween : I.Between m.log sequence loop)
    (hpending : failed = false → sequence.pending = []) :
    I.Holds (m.finishWait args sequence failed loop) := by
  have hsaved := hk.between_saved hbetween
  unfold Machine.finishWait
  split
  · exact hk.stop h hnodup hsaved
  · rename_i hfailed
    have hstored := hk.store h hnodup hsaved
    cases loop with
    | none =>
      exact hk.beginBroadcast hstored (hk.saved_save hsaved) (hpending (by simpa using hfailed))
    | some loop => exact hk.nextBatch hstored hnodup (hk.sending_save hbetween)

theorem startWait {loop : Option Loop} (hbetween : I.Between m.log sequence loop) :
    I.Holds (m.startWait args sequence loop) := by
  unfold Machine.startWait
  split
  · rename_i hpending
    exact hk.finishWait h hnodup hbetween fun _ => hpending
  · exact h.goOn hnodup ⟨hbetween, hnodup, List.Subset.refl _, fun _ => List.Subset.refl _⟩

theorem checked {loop : Option Loop} {hash : TxHash}
    (hduring : I.During m.log sequence (.waiting remaining failed loop)) (hhash : hash ∈ remaining)
    (hfor : outcome.For hash) (hcheck : c.check sequence hash outcome) :
    I.Holds (m.checked args sequence remaining failed loop hash outcome) := by
  obtain ⟨hbetween, hchecking⟩ := hduring
  have hnodup' : (sequence.check hash outcome).pending.Nodup :=
    nodup_pending_check hnodup
  have hchecking' := hchecking.check hfor
  have hbetween' : I.Between m.log (sequence.check hash outcome) loop := by
    cases loop with
    | none => exact hk.saved_check hbetween hnodup (hchecking.subset hhash) hfor hcheck
    | some loop => exact hk.sending_check hbetween hnodup (hchecking.subset hhash) hfor hcheck
  unfold Machine.checked
  dsimp only
  split
  · rename_i hdone
    refine hk.finishWait h hnodup' hbetween' fun hfailed => ?_
    exact List.subset_nil.mp (hdone ▸ hchecking'.exhausts hfailed)
  · exact h.goOn hnodup' ⟨hbetween', hchecking'⟩

theorem completed {buffer : List Task} {slot : Nat} {task : Task} {answers : Answers}
    (hsending : I.sending m.log sequence buffer loop) (htask : buffer[slot]? = some task)
    (hcomplete : c.complete sequence buffer loop task answers) :
    I.Holds (m.completed args sequence buffer loop slot task answers) := by
  have hmem : task ∈ buffer := List.mem_of_getElem? htask
  have hstored := hk.note h (hk.attempt hsending hmem hcomplete)
  have hsending' :=
    hk.sending_note (.attempt loop.index loop.options task answers) hsending
  unfold Machine.completed
  split
  · rename_i hash hrun
    have hsent := hk.sent hsending htask hcomplete hrun
    have hnodup' : (sequence.addPending loop.index hash).save.pending.Nodup :=
      nodup_pending_addPending hnodup
    have hstored' : I.Stored { m.note (.attempt loop.index loop.options task answers) with
        saved := (sequence.addPending loop.index hash).save } :=
      ⟨hk.saved_of_sending hsent, hnodup', hstored.entries⟩
    unfold Machine.sent
    split
    · rename_i hrest
      rw [hrest] at hsent
      exact hk.startWait hstored' hnodup' hsent
    · exact hstored'.goOn hnodup' hsent
  · split
    · exact hstored.goOn hnodup (hk.retry hsending' htask)
    · exact hk.stop hstored hnodup (hk.saved_of_sending hsending')

end

/-- An event that meets the conditions keeps the invariant. -/
theorem step {m' : Machine} {event : Event} (h : I.Holds m) (hmeets : c.Meets m event)
    (hstep : Step m event m') : I.Holds m' := by
  obtain ⟨args, rfl, -, rfl⟩ |
    ⟨hash, outcome, args, sequence, remaining, failed, loop, rfl, hprocess, hhash, hfor, rfl⟩ |
    ⟨slot, answers, args, sequence, buffer, loop, task, rfl, hprocess, htask, rfl⟩ |
    ⟨process, rfl, hprocess, rfl⟩ | ⟨process, rfl, hprocess, rfl⟩ := step_cases hstep
  · exact hk.startWait h.toStored h.nodup h.saved
  · obtain ⟨hnodup, hduring⟩ := h.process _ hprocess
    simp only [Conditions.Meets, hprocess] at hmeets
    exact hk.checked h.toStored hnodup hduring hhash hfor hmeets
  · obtain ⟨hnodup, hduring⟩ := h.process _ hprocess
    simp only [Conditions.Meets, hprocess] at hmeets
    exact hk.completed h.toStored hnodup hduring htask (hmeets task htask)
  · obtain ⟨hnodup, hduring⟩ := h.process _ hprocess
    refine hk.stop h.toStored hnodup ?_
    cases hphase : process.phase with
    | waiting remaining failed loop =>
      rw [hphase] at hduring
      exact hk.between_saved hduring.1
    | sending buffer loop =>
      rw [hphase] at hduring
      exact hk.saved_of_sending hduring
  · exact h.toStored.idle

/-- So does every run of such events. -/
theorem run (h₀ : I.Holds m₀) (h : Run (Guarded c.Meets Step) m₀ events m) : I.Holds m :=
  h.keeps h₀ fun hI hs => hk.step hI hs.1 hs.2

/-- An invariant of all events holds wherever a run leads. -/
theorem run_unguarded (hall : ∀ m event, c.Meets m event) (h₀ : I.Holds m₀)
    (h : Run Step m₀ events m) : I.Holds m :=
  hk.run h₀ (h.mono fun m event _ hs => ⟨hall m event, hs⟩)

end Kept

theorem holds_initial {transactions : List TransactionWithMetadata} {chain : UInt64}
    (h : I.saved [] (initial transactions chain).saved) :
    I.Holds (initial transactions chain) :=
  ⟨⟨h, List.nodup_nil, fun _ he => absurd he List.not_mem_nil⟩,
    fun _ hp => absurd hp.symm (Option.some_ne_none _)⟩

end Invariant

end BaseAnvil.Script
