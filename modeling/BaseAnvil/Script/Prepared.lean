import BaseAnvil.Script.Attribution

/-!
# BaseAnvil.Script.Prepared

What is known about a transaction when it is sent.

The first attempt prepares a copy of the request and sends that copy. An error of the preparation
and an error of the send lead to the same retry, which sends the request as it was before. So a
retry is safe exactly if the first attempt found the nonce it waited for, and its gas estimate,
where one is needed, is what the request had anyway.
-/

namespace BaseAnvil.Script

open Lib SendTransactionKind Call Answers Conditions

/-- The answer to a nonce query. -/
def Call.nonceAnswer? : Call → Option (Except String UInt64)
  | .nonce answer => some answer
  | _ => none

/-- What the last nonce query returned. -/
def lastNonce (calls : List Call) : Option (Except String UInt64) :=
  (calls.filterMap Call.nonceAnswer?).getLast?

/-- The gas limit that `estimate_gas` computes. -/
def SendOptions.gasLimit (options : SendOptions) (estimate : UInt64) : UInt64 :=
  estimate * options.gasEstimateMultiplier / 100

/-- After these calls the request is ready to be sent. -/
structure Prepared (options : SendOptions) (isFixedGasLimit : Bool) (calls : List Call)
    (tx : TransactionRequest) : Prop where
  nonce : lastNonce calls = some (.ok tx.nonce)
  gas : isFixedGasLimit = false → options.estimateViaRpc = true →
    ∃ estimate, Call.estimate (.ok estimate) ∈ calls ∧ tx.gas = some (options.gasLimit estimate)

/-- The calls of the earlier attempts. -/
def Task.earlierCalls (options : SendOptions) (self : Task) : List Call :=
  self.answered.zipIdx.flatMap fun earlier =>
    (Task.run options { self with attempt := earlier.2 } earlier.1).2

/-- In a sequential broadcast, whatever unsigned transaction an attempt sends is prepared. -/
def Entry.SendsPrepared : Entry → Prop
  | .already _ _ => True
  | .attempt _ options task answers => options.sequentialBroadcast = true →
      ∀ before kind after tx, (task.run options answers).2 = before ++ .send kind :: after →
        kind.request? = some tx →
        Prepared options task.isFixedGasLimit (task.earlierCalls options ++ before) tx

/-- The provider's nonce reached the nonce in at most five queries, without passing it. -/
def Answers.Reaches (answers : Answers) (nonce : UInt64) : Prop :=
  ∃ k < 5, answers.nonces k = .ok nonce ∧ ∀ j < k, ∃ n < nonce, answers.nonces j = .ok n

/-- A retry happens only after a first attempt that found the nonce it waited for, and whose gas
estimate, where one is needed, leaves the request as it is. -/
def retriesReady : Conditions where
  check _ _ _ := True
  complete _ _ loop task _ := loop.options.sequentialBroadcast = true →
    ∀ first ∈ task.answered.head?, ∀ tx ∈ task.kind.request?,
      first.Reaches tx.nonce ∧
        (task.isFixedGasLimit = false → loop.options.estimateViaRpc = true →
          ∃ estimate, first.estimate = .ok estimate ∧
            tx.gas = some (loop.options.gasLimit estimate))

/-! ### The nonce -/

section

variable {answers : Answers} {nonce : UInt64} {calls later : List Call}

@[simp] theorem lastNonce_nil : lastNonce [] = none := rfl

theorem lastNonce_append_of_none (h : ∀ call ∈ later, call.nonceAnswer? = none) :
    lastNonce (calls ++ later) = lastNonce calls := by
  have hnone : later.filterMap nonceAnswer? = [] := List.filterMap_eq_nil_iff.mpr h
  rw [lastNonce, List.filterMap_append, hnone, List.append_nil]
  rfl

theorem lastNonce_cons (answer : Except String UInt64) :
    lastNonce (.nonce answer :: later) = some ((lastNonce later).getD answer) := by
  simp [lastNonce, nonceAnswer?, List.getLast?_cons]

/-- The nonce is reached with `left` queries left. -/
def Answers.ReachesWith (answers : Answers) (nonce : UInt64) (left : Nat) : Prop :=
  ∃ k < left, answers.nonces (5 - left + k) = .ok nonce ∧
    ∀ j < k, ∃ n < nonce, answers.nonces (5 - left + j) = .ok n

variable {left : Nat}

/-- The first of the queries that are left decides, unless it returns a smaller nonce. -/
theorem Answers.reachesWith_succ (hleft : left < 5) :
    answers.ReachesWith nonce (left + 1) ↔
      answers.nonces (4 - left) = .ok nonce ∨
        (∃ n < nonce, answers.nonces (4 - left) = .ok n) ∧ answers.ReachesWith nonce left := by
  have hfirst : 5 - (left + 1) = 4 - left := by omega
  constructor
  · rintro ⟨k, hk, hreach, hbelow⟩
    rw [hfirst] at hreach
    cases k with
    | zero => exact .inl hreach
    | succ k =>
      refine .inr ⟨by simpa [hfirst] using hbelow 0 (Nat.succ_pos k), k, by omega, ?_, ?_⟩
      · rw [← hreach]
        congr 1
        omega
      · intro j hj
        obtain ⟨n, hn, heq⟩ := hbelow (j + 1) (by omega)
        refine ⟨n, hn, ?_⟩
        rw [← heq]
        congr 1
        omega
  · rintro (hreach | ⟨hsmaller, k, hk, hreach, hbelow⟩)
    · exact ⟨0, Nat.succ_pos left, by rwa [hfirst], fun j hj => absurd hj (Nat.not_lt_zero j)⟩
    · refine ⟨k + 1, by omega, ?_, ?_⟩
      · rw [← hreach]
        congr 1
        omega
      · intro j hj
        cases j with
        | zero => simpa [hfirst] using hsmaller
        | succ j =>
          obtain ⟨n, hn, heq⟩ := hbelow j (by omega)
          refine ⟨n, hn, ?_⟩
          rw [← heq]
          congr 1
          omega

/-- One query of the loop. -/
theorem syncNonce_succ (answers : Answers) (nonce : UInt64) (left : Nat) :
    (∃ e, answers.nonces (4 - left) = .error e ∧
      syncNonce answers nonce (left + 1) =
        (.error e, [.nonce (.error e)])) ∨
    (∃ n e, answers.nonces (4 - left) = .ok n ∧ (nonce < n ∨ n < nonce ∧ left = 0) ∧
      syncNonce answers nonce (left + 1) = (.error e, [.nonce (.ok n)])) ∨
    (∃ n, answers.nonces (4 - left) = .ok n ∧ n < nonce ∧ left ≠ 0 ∧
      syncNonce answers nonce (left + 1) =
        ((syncNonce answers nonce left).1,
          .nonce (.ok n) :: (syncNonce answers nonce left).2)) ∨
    (answers.nonces (4 - left) = .ok nonce ∧
      syncNonce answers nonce (left + 1) = (.ok (), [.nonce (.ok nonce)])) := by
  rw [syncNonce]
  split
  · rename_i e he
    exact .inl ⟨e, he, by rw [he]⟩
  · rename_i n hn
    split
    · rename_i hgreater
      exact .inr (.inl ⟨n, _, hn, .inl hgreater, by rw [hn]⟩)
    · split
      · rename_i hless
        split
        · rename_i hleft
          exact .inr (.inl ⟨n, _, hn, .inr ⟨hless, hleft⟩, by rw [hn]⟩)
        · rename_i hleft
          exact .inr (.inr (.inl ⟨n, hn, hless, hleft, by rw [hn]⟩))
      · rename_i hgreater hless
        have heq : n = nonce :=
          UInt64.le_antisymm (UInt64.not_lt.mp hgreater) (UInt64.not_lt.mp hless)
        subst heq
        exact .inr (.inr (.inr ⟨hn, by rw [hn]⟩))

/-- The last query returned the nonce exactly if it was reached. -/
theorem lastNonce_syncNonce (hleft : left ≤ 5) :
    lastNonce (syncNonce answers nonce left).2 = some (.ok nonce) ↔
      answers.ReachesWith nonce left := by
  induction left with
  | zero =>
    refine iff_of_false (by simp [syncNonce]) ?_
    rintro ⟨k, hk, -⟩
    exact Nat.not_lt_zero k hk
  | succ left ih =>
    rw [reachesWith_succ (by omega)]
    obtain ⟨e, hn, heq⟩ | ⟨n, e, hn, hne, heq⟩ | ⟨n, hn, hless, -, heq⟩ | ⟨hn, heq⟩ :=
      syncNonce_succ answers nonce left
    · rw [heq, hn]
      simp [lastNonce_cons]
    · have hne' : n ≠ nonce := hne.elim (fun h => (UInt64.ne_of_lt h).symm)
        fun h => UInt64.ne_of_lt h.1
      rw [heq, hn]
      refine iff_of_false (by simpa [lastNonce_cons] using hne') ?_
      rintro (heq' | ⟨⟨n', hless, heq'⟩, k, hk, -⟩)
      · exact hne' (Except.ok.inj heq')
      · cases heq'
        rcases hne with hgreater | ⟨-, rfl⟩
        · exact UInt64.lt_irrefl _ (UInt64.lt_trans hgreater hless)
        · exact Nat.not_lt_zero k hk
    · have hne : n ≠ nonce := UInt64.ne_of_lt hless
      have hsmaller : ∃ n' < nonce, (Except.ok n : Except String UInt64) = .ok n' :=
        ⟨n, hless, rfl⟩
      rw [heq, hn, lastNonce_cons, ← ih (by omega), and_iff_right hsmaller,
        or_iff_right (fun h => hne (Except.ok.inj h))]
      cases hlater : lastNonce (syncNonce answers nonce left).2 with
      | none => simpa using hne
      | some answer => simp
    · rw [heq, hn]
      simp [lastNonce_cons]

/-- The loop ends well exactly if its last query returned the nonce. -/
theorem syncNonce_eq_ok (hpos : left ≠ 0) :
    (syncNonce answers nonce left).1 = .ok () ↔
      lastNonce (syncNonce answers nonce left).2 = some (.ok nonce) := by
  induction left with
  | zero => exact absurd rfl hpos
  | succ left ih =>
    obtain ⟨e, hn, heq⟩ | ⟨n, e, hn, hne, heq⟩ | ⟨n, hn, hless, hleft, heq⟩ | ⟨hn, heq⟩ :=
      syncNonce_succ answers nonce left
    · simp [heq, lastNonce_cons]
    · have hne' : n ≠ nonce := hne.elim (fun h => (UInt64.ne_of_lt h).symm)
        fun h => UInt64.ne_of_lt h.1
      simp [heq, lastNonce_cons, hne']
    · rw [heq, ih hleft, lastNonce_cons]
      cases hlater : lastNonce (syncNonce answers nonce left).2 with
      | none => simpa using UInt64.ne_of_lt hless
      | some answer => simp
    · simp [heq, lastNonce_cons]

theorem mem_syncNonce {call : Call} (h : call ∈ (syncNonce answers nonce left).2) :
    ∃ answer, call = .nonce answer := by
  induction left with
  | zero => exact absurd h List.not_mem_nil
  | succ left ih =>
    obtain ⟨e, -, heq⟩ | ⟨n, e, -, -, heq⟩ | ⟨n, -, -, -, heq⟩ | ⟨-, heq⟩ :=
      syncNonce_succ answers nonce left
    · rw [heq] at h
      exact ⟨_, List.mem_singleton.mp h⟩
    · rw [heq] at h
      exact ⟨_, List.mem_singleton.mp h⟩
    · rw [heq] at h
      rcases List.mem_cons.mp h with rfl | hmem
      · exact ⟨_, rfl⟩
      · exact ih hmem
    · rw [heq] at h
      exact ⟨_, List.mem_singleton.mp h⟩

theorem Answers.reachesWith_five : answers.ReachesWith nonce 5 ↔ answers.Reaches nonce := by
  simp [ReachesWith, Reaches]

end

/-! ### The first attempt -/

section

variable {options : SendOptions} {isFixedGasLimit : Bool} {answers : Answers}
  {kind : SendTransactionKind} {tx : TransactionRequest}
  (hsequential : options.sequentialBroadcast = true) (htx : kind.request? = some tx)

/-- The calls of an attempt: the nonce queries, an estimate if the nonce was reached and one is
needed, and the send if the transaction could be prepared. -/
inductive FirstCalls (options : SendOptions) (isFixedGasLimit : Bool) (answers : Answers)
    (kind : SendTransactionKind) (tx : TransactionRequest) (queries : List Call) :
    List Call → Prop
  | unreached : ¬answers.Reaches tx.nonce →
      FirstCalls options isFixedGasLimit answers kind tx queries queries
  | unestimated {e : String} : answers.Reaches tx.nonce → answers.estimate = .error e →
      FirstCalls options isFixedGasLimit answers kind tx queries
        (queries ++ [.estimate (.error e)])
  | estimated {estimate : UInt64} : answers.Reaches tx.nonce → answers.estimate = .ok estimate →
      FirstCalls options isFixedGasLimit answers kind tx queries
        (queries ++ [.estimate (.ok estimate)] ++
          [.send (kind.setRequest { tx with gas := some (options.gasLimit estimate) })])
  | sent : answers.Reaches tx.nonce →
      (isFixedGasLimit = false → options.estimateViaRpc = true → False) →
      FirstCalls options isFixedGasLimit answers kind tx queries (queries ++ [.send kind])

include hsequential htx

theorem firstCalls_prepareAndSend :
    FirstCalls options isFixedGasLimit answers kind tx
      (syncNonce answers tx.nonce 5).2
      (kind.prepareAndSend options isFixedGasLimit answers).2 := by
  have hreach : (syncNonce answers tx.nonce 5).1 = .ok () ↔
      answers.Reaches tx.nonce := by
    rw [syncNonce_eq_ok (by omega), lastNonce_syncNonce le_rfl, reachesWith_five]
  unfold prepareAndSend prepare
  simp only [htx, hsequential, if_true]
  cases hsync : (syncNonce answers tx.nonce 5).1 with
  | error e =>
    refine .unreached fun hr => ?_
    rw [hreach.mpr hr] at hsync
    cases hsync
  | ok u =>
    have hr : answers.Reaches tx.nonce := hreach.mp hsync
    by_cases hneeded : (!isFixedGasLimit && options.estimateViaRpc) = true
    · rw [if_pos hneeded]
      unfold estimateGas
      cases hestimate : answers.estimate with
      | error e => exact .unestimated hr hestimate
      | ok estimate => exact .estimated hr hestimate
    · rw [if_neg hneeded]
      refine .sent hr fun hfixed hrpc => hneeded ?_
      simp [hfixed, hrpc]

/-- The last nonce query of the first attempt returned the nonce exactly if it was reached. -/
theorem lastNonce_prepareAndSend :
    lastNonce (kind.prepareAndSend options isFixedGasLimit answers).2 = some (.ok tx.nonce) ↔
      answers.Reaches tx.nonce := by
  have hsync := @lastNonce_syncNonce answers tx.nonce 5 le_rfl
  rw [reachesWith_five] at hsync
  rw [← hsync]
  have hshape := @firstCalls_prepareAndSend _ isFixedGasLimit answers _ _ hsequential htx
  generalize (kind.prepareAndSend options isFixedGasLimit answers).2 = calls at hshape
  cases hshape with
  | unreached _ => exact Iff.rfl
  | unestimated | sent => rw [lastNonce_append_of_none (by simp [nonceAnswer?])]
  | estimated _ _ =>
    rw [List.append_assoc, lastNonce_append_of_none (by simp [nonceAnswer?])]

theorem estimate_mem_prepareAndSend {estimate : UInt64}
    (h : .estimate (.ok estimate) ∈ (kind.prepareAndSend options isFixedGasLimit answers).2) :
    answers.estimate = .ok estimate := by
  have hqueries : Call.estimate (.ok estimate) ∉
      (syncNonce answers tx.nonce 5).2 := by
    intro hmem
    obtain ⟨answer, heq⟩ := mem_syncNonce hmem
    cases heq
  have hshape := @firstCalls_prepareAndSend _ isFixedGasLimit answers _ _ hsequential htx
  generalize (kind.prepareAndSend options isFixedGasLimit answers).2 = calls at hshape h
  cases hshape with
  | unreached _ => exact absurd h hqueries
  | unestimated _ _ => simp [hqueries] at h
  | estimated _ hestimate =>
    simp only [List.mem_append, hqueries, List.mem_singleton, false_or, reduceCtorEq, or_false,
      Call.estimate.injEq, Except.ok.injEq] at h
    rw [h]
    exact hestimate
  | sent _ _ => simp [hqueries] at h

theorem mem_prepareAndSend_of_reaches (hreach : answers.Reaches tx.nonce)
    (hfixed : isFixedGasLimit = false) (hrpc : options.estimateViaRpc = true) :
    .estimate answers.estimate ∈ (kind.prepareAndSend options isFixedGasLimit answers).2 := by
  have hshape := @firstCalls_prepareAndSend _ isFixedGasLimit answers _ _ hsequential htx
  generalize (kind.prepareAndSend options isFixedGasLimit answers).2 = calls at hshape
  cases hshape with
  | unreached hnot => exact absurd hreach hnot
  | unestimated _ heq => simp [heq]
  | estimated _ heq => simp [heq]
  | sent _ hnot => exact (hnot hfixed hrpc).elim

omit htx hsequential in
theorem calls_signed (hsigned : kind.request? = none) :
    (kind.prepareAndSend options isFixedGasLimit answers).2 = [.send kind] := by
  simp [prepareAndSend, prepare, hsigned,
    SendTransactionKind.send]

omit htx hsequential in
theorem before_eq_of_append_singleton {calls before after : List Call} {call call' : Call}
    (hcall : call' ∉ calls) (h : calls ++ [call] = before ++ call' :: after) :
    before = calls ∧ call' = call := by
  rcases List.eq_nil_or_concat after with rfl | ⟨after, last, rfl⟩
  · obtain ⟨rfl, heq⟩ := List.append_inj' h rfl
    exact ⟨rfl, (List.cons.inj heq).1.symm⟩
  · rw [List.concat_eq_append, ← List.cons_append, ← List.append_assoc] at h
    obtain ⟨rfl, -⟩ := List.append_inj' h rfl
    exact absurd (by simp) hcall

omit htx in
/-- What the first attempt sends is prepared. -/
theorem prepared_first {before after : List Call} {sent : SendTransactionKind}
    (hsent : sent.request? = some tx)
    (h : (kind.prepareAndSend options isFixedGasLimit answers).2 = before ++ .send sent :: after) :
    Prepared options isFixedGasLimit before tx := by
  cases hkind : kind.request? with
  | none =>
    rw [calls_signed hkind] at h
    obtain ⟨-, heq⟩ := @before_eq_of_append_singleton [] _ _ _ _ List.not_mem_nil h
    cases heq
    rw [hkind] at hsent
    cases hsent
  | some tx₀ =>
    have hqueries : send sent ∉ (syncNonce answers tx₀.nonce 5).2 := by
      intro hmem
      obtain ⟨answer, heq⟩ := mem_syncNonce hmem
      cases heq
    have hlast := @lastNonce_syncNonce answers tx₀.nonce 5 le_rfl
    rw [reachesWith_five] at hlast
    have hshape := @firstCalls_prepareAndSend _ isFixedGasLimit answers _ _ hsequential hkind
    rw [h] at hshape
    generalize hcalls : before ++ .send sent :: after = calls at hshape
    cases hshape with
    | unreached _ => exact absurd (hcalls ▸ by simp) hqueries
    | unestimated _ _ =>
      have hmem : send sent ∈ before ++ .send sent :: after := by simp
      rw [hcalls] at hmem
      simp [hqueries] at hmem
    | @estimated estimate hreach hestimate =>
      obtain ⟨rfl, heq⟩ := before_eq_of_append_singleton (by simp [hqueries]) hcalls.symm
      cases heq
      rw [request?_setRequest, hkind] at hsent
      cases hsent
      refine ⟨?_, fun _ _ => ⟨estimate, by simp, rfl⟩⟩
      rw [lastNonce_append_of_none (by simp [nonceAnswer?])]
      exact hlast.mpr hreach
    | sent hreach hnot =>
      obtain ⟨rfl, heq⟩ := before_eq_of_append_singleton hqueries hcalls.symm
      cases heq
      rw [hkind] at hsent
      cases hsent
      exact ⟨hlast.mpr hreach, fun hfixed hrpc => (hnot hfixed hrpc).elim⟩

end

/-! ### Retries -/

/-- A task was attempted as often as it has answers. -/
def Task.Counted (task : Task) : Prop := task.attempt = task.answered.length

theorem Task.laterCalls_eq {options : SendOptions} (task : Task) (later : List Answers) {n : Nat}
    (hn : n ≠ 0) :
    ((later.zipIdx n).flatMap fun earlier =>
      (Task.run options { task with attempt := earlier.2 } earlier.1).2) =
      later.map fun _ => send task.kind := by
  induction later generalizing n with
  | nil => rfl
  | cons answers later ih =>
    rw [List.zipIdx_cons, List.flatMap_cons, ih (Nat.succ_ne_zero n), List.map_cons, Task.run,
      if_neg hn]
    rfl

variable {later : List Answers}

/-- The calls before a retry: those of the first attempt, and sends. -/
theorem Task.earlierCalls_cons {options : SendOptions} {task : Task} {first : Answers}
    (h : task.answered = first :: later) :
    task.earlierCalls options =
      (task.kind.prepareAndSend options task.isFixedGasLimit first).2 ++
        later.map fun _ => send task.kind := by
  have hzip : task.answered.zipIdx = (first, 0) :: later.zipIdx 1 := by rw [h, List.zipIdx_cons]
  rw [earlierCalls, hzip, List.flatMap_cons, laterCalls_eq task later Nat.one_ne_zero, Task.run,
    if_pos rfl]

/-- After the calls before a retry, the request is prepared exactly if the first attempt reached
its nonce and estimated the gas it has. -/
theorem prepared_retry_iff {options : SendOptions} {task : Task} {first : Answers}
    {tx : TransactionRequest} (hsequential : options.sequentialBroadcast = true)
    (hanswered : task.answered = first :: later) (htx : task.kind.request? = some tx) :
    Prepared options task.isFixedGasLimit (task.earlierCalls options) tx ↔
      first.Reaches tx.nonce ∧
        (task.isFixedGasLimit = false → options.estimateViaRpc = true →
          ∃ estimate, first.estimate = .ok estimate ∧
            tx.gas = some (options.gasLimit estimate)) := by
  have hnonce : lastNonce (task.earlierCalls options) = some (.ok tx.nonce) ↔
      first.Reaches tx.nonce := by
    rw [Task.earlierCalls_cons hanswered,
      lastNonce_append_of_none (by simp [nonceAnswer?]),
      lastNonce_prepareAndSend hsequential htx]
  have hmem : ∀ estimate, Call.estimate (.ok estimate) ∈ task.earlierCalls options ↔
      Call.estimate (.ok estimate) ∈
        (task.kind.prepareAndSend options task.isFixedGasLimit first).2 := by
    intro estimate
    rw [Task.earlierCalls_cons hanswered]
    simp
  constructor
  · rintro ⟨hlast, hgas⟩
    refine ⟨hnonce.mp hlast, fun hfixed hrpc => ?_⟩
    obtain ⟨estimate, hcall, heq⟩ := hgas hfixed hrpc
    exact ⟨estimate, estimate_mem_prepareAndSend hsequential htx ((hmem estimate).mp hcall), heq⟩
  · rintro ⟨hreach, hgas⟩
    refine ⟨hnonce.mpr hreach, fun hfixed hrpc => ?_⟩
    obtain ⟨estimate, hestimate, heq⟩ := hgas hfixed hrpc
    refine ⟨estimate, (hmem estimate).mpr ?_, heq⟩
    rw [← hestimate]
    exact mem_prepareAndSend_of_reaches hsequential htx hreach hfixed hrpc

/-- What a retry sends is prepared exactly if the first attempt left the request ready. -/
theorem sendsPrepared_iff {index : Nat} {options : SendOptions} {task : Task} {answers : Answers}
    (h : task.Counted) :
    Entry.SendsPrepared (.attempt index options task answers) ↔
      (options.sequentialBroadcast = true →
        ∀ first ∈ task.answered.head?, ∀ tx ∈ task.kind.request?,
          first.Reaches tx.nonce ∧
            (task.isFixedGasLimit = false → options.estimateViaRpc = true →
              ∃ estimate, first.estimate = .ok estimate ∧
                tx.gas = some (options.gasLimit estimate))) := by
  refine imp_congr_right fun hsequential => ?_
  cases hanswered : task.answered with
  | nil =>
    have hattempt : task.attempt = 0 := by rw [h, hanswered]; rfl
    refine iff_of_true ?_ (by simp)
    intro before kind after tx hcalls htx
    have hearlier : task.earlierCalls options = [] := by simp [Task.earlierCalls, hanswered]
    rw [hearlier, List.nil_append]
    rw [Task.run, if_pos hattempt] at hcalls
    exact prepared_first hsequential htx hcalls
  | cons first later =>
    have hattempt : task.attempt ≠ 0 := by rw [h, hanswered]; simp
    have hcalls : (task.run options answers).2 = [.send task.kind] := by
      rw [Task.run, if_neg hattempt]
      rfl
    simp only [List.head?_cons, Option.mem_def, Option.some.injEq, forall_eq']
    constructor
    · intro hprepared tx htx
      have hsent := hprepared [] task.kind [] tx hcalls htx
      rw [List.append_nil] at hsent
      exact (prepared_retry_iff hsequential hanswered htx).mp hsent
    · intro hready before kind after tx hsplit htx
      rw [hcalls] at hsplit
      obtain ⟨rfl, heq⟩ := @before_eq_of_append_singleton [] _ _ _ _ List.not_mem_nil hsplit
      cases heq
      rw [List.append_nil]
      exact (prepared_retry_iff hsequential hanswered htx).mpr (hready tx htx)

/-! ### Runs -/

/-- Tasks count their attempts. -/
def counting : Invariant where
  saved _ _ := True
  sending _ _ buffer loop := ∀ task ∈ buffer ++ loop.tasks, task.Counted
  entry _ := True

theorem counting_kept : counting.Kept .any where
  saved_note _ h := h
  sending_note _ h := h
  saved_save h := h
  sending_save h := h
  saved_of_sending _ := trivial
  already _ _ := trivial
  begins args _ _ htasks := by
    intro task htask
    obtain ⟨entry, -, ht⟩ := RunArgs.exists_mem_of_tasks htasks htask
    obtain ⟨k, rfl, -⟩ := RunArgs.exists_of_task ht
    rfl
  batch h := by
    change ∀ task ∈ _ ++ _, _
    rw [List.take_append_drop]
    exact h
  saved_check _ _ _ _ _ := trivial
  sending_check h _ _ _ _ := h
  attempt _ _ _ := trivial
  retry {log sequence buffer loop slot task answers error} h htask := by
    intro t ht
    simp only [List.mem_append, List.mem_singleton] at ht
    rcases ht with (ht | rfl) | ht
    · exact h t (List.mem_append_left _ (List.mem_of_mem_eraseIdx ht))
    · have hcounted := h task (List.mem_append_left _ (List.mem_of_getElem? htask))
      simp only [Task.Counted, Task.retry, List.length_append, List.length_singleton]
      rw [hcounted]
    · exact h t (List.mem_append_right _ ht)
  sent {log sequence buffer loop slot task answers hash} h htask _ _ := by
    intro t ht
    rcases List.mem_append.mp ht with ht | ht
    · exact h t (List.mem_append_left _ (List.mem_of_mem_eraseIdx ht))
    · exact h t (List.mem_append_right _ ht)

theorem meets_prepared_iff {m : Machine} {event : Event} (h : counting.Holds m) :
    (ofEntry Entry.SendsPrepared).Meets m event ↔ retriesReady.Meets m event := by
  unfold Meets
  split
  · exact Iff.rfl
  · rename_i slot answers args sequence buffer loop hprocess
    refine forall₂_congr fun task htask => ?_
    have hmem : task ∈ buffer ++ loop.tasks :=
      List.mem_append_left _ (List.mem_of_getElem? htask)
    exact @sendsPrepared_iff loop.index _ _ _ ((h.process _ hprocess).2 task hmem)
  · exact Iff.rfl

/-- **Retries.** In a run, all unsigned transactions that sequential broadcasts sent were prepared
exactly if every retry came after a first attempt that left the request ready. The retry itself
prepares nothing. -/
theorem sendsPrepared_iff_ready {transactions : List TransactionWithMetadata} {chain : UInt64}
    {events : List Event} {m : Machine}
    (h : Run Machine.Step (Machine.initial transactions chain) events m) :
    (∀ e ∈ m.log, e.SendsPrepared) ↔
      Run.Along Machine.Step (Machine.initial transactions chain) events retriesReady.Meets :=
  (Machine.forall_log_iff_along (fun _ _ => trivial) rfl h).trans
    (Run.along_iff (I := counting.Holds) (Invariant.holds_initial trivial)
      (fun _ _ hI => meets_prepared_iff hI) fun m event _ hI _ hs =>
        counting_kept.step hI (meets_any m event) hs)

/-- `--slow`: one transaction at a time. -/
def sampleSlow : RunArgs := { sampleArgs with slow := true }

/-- The provider's nonce is 5, and it accepts what it is sent. -/
def sampleChanged : Answers := { accepting 0xaa with nonces := fun _ => .ok 5 }

/-- The first of two transactions is sent at the first attempt. -/
theorem sendsPrepared_iff_ready_pair :
    ∃ m, Run Machine.Step (Machine.initial samplePair 1)
        [.start sampleSlow, .complete 0 (accepting 0xaa)] m ∧
      ((∀ e ∈ m.log, e.SendsPrepared) ↔
        Run.Along Machine.Step (Machine.initial samplePair 1)
          [.start sampleSlow, .complete 0 (accepting 0xaa)] retriesReady.Meets) :=
  ⟨_, Run.of_foldlM rfl, sendsPrepared_iff_ready (Run.of_foldlM rfl)⟩

/-- The account nonce changed, so the preparation fails. The transaction is sent by the retry. -/
theorem not_sendsPrepared :
    ∃ transactions chain events m, Run Machine.Step (Machine.initial transactions chain) events m ∧
      ¬∀ e ∈ m.log, e.SendsPrepared := by
  refine ⟨samplePair, 1,
    [.start sampleSlow, .complete 0 sampleChanged, .complete 0 sampleChanged], _,
    Run.of_foldlM rfl, ?_⟩
  intro h
  have hlast := h _ (List.mem_cons_of_mem _ (List.mem_cons_of_mem _ List.mem_cons_self)) rfl
    [] _ [] _ rfl rfl
  exact absurd hlast.nonce (by decide)

end BaseAnvil.Script
