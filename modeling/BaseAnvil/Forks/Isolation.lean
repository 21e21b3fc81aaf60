import BaseAnvil.Forks.Fresh

/-!
# BaseAnvil.Forks.Isolation

What is seen under the identifier of a fork.

The environment of a fork is the one that the provider gave, with the edits made under its
identifier. But where a fork is there already when a task succeeds, it is cloned as it is by
then: what was edited under the old identifier shows under the new one.
-/

namespace BaseAnvil.Forks

open Lib Chain MultiForkHandler HashMap

/-! ### What each identifier should show -/

/-- A request, or one round of the loop that advances the tasks. -/
inductive HandlerOp
  | request (req : Request)
  | advance (n : Nat) (ready : Option (Except String Provided))

def HandlerOp.isShutDown : HandlerOp → Bool
  | .request .shutDown => true
  | _ => false

def MultiForkHandler.exec (h : MultiForkHandler) :
    HandlerOp → Option (List Response × MultiForkHandler)
  | .request req => some (h.onRequest req)
  | .advance n ready => h.advance n ready

/-- A handler with the identifiers it has handed out, and the environment that should be seen
under each of them. -/
structure Observed where
  handler : MultiForkHandler
  handed : List ForkId
  expected : HashMap ForkId Env

namespace Observed

def new : Observed := ⟨.new, [], ∅⟩

/-- An edit of the environment that should be seen under an identifier. -/
def edit (expected : HashMap ForkId Env) (id : ForkId) (f : BlockEnv → BlockEnv) :
    HashMap ForkId Env :=
  match expected.lookup id with
  | none => expected
  | some env => expected.insert id (env.mapBlockEnv f)

/-- The environment that the provider has given is that of the identifiers handed out with it,
and an edit is to one identifier. -/
def expect (expected : HashMap ForkId Env) (ids : List ForkId) : HandlerOp → HashMap ForkId Env
  | .advance _ (some (.ok provided)) => HashMap.insertAll expected (ids.map (·, provided.env))
  | .request (.updateBlock id number timestamp) =>
    edit expected id fun env => { env with number := number, timestamp := timestamp }
  | .request (.updateEnv id env) => edit expected id fun _ => env
  | _ => expected

def next (o : Observed) (op : HandlerOp) : Option Observed :=
  (o.handler.exec op).map fun (responses, handler) =>
    ⟨handler, o.handed ++ handedOut responses, expect o.expected (handedOut responses) op⟩

/-- A step of a handler that is in use: it is not shut down. -/
def Step (o : Observed) (op : HandlerOp) (o' : Observed) : Prop :=
  op.isShutDown = false ∧ o.next op = some o'

/-- No identifier was handed out twice, and each shows what it should. -/
structure Isolated (o : Observed) : Prop where
  distinct : o.handed.Nodup
  env : ∀ id ∈ o.handed, ∃ env, o.handler.getEnv id = some env ∧ o.expected.lookup id = some env

/-- A fork that is there when a task succeeds has the environment that the provider gives. -/
def Unedited (o : Observed) : HandlerOp → Prop
  | .advance n (some (.ok provided)) => ∀ task env, o.handler.pendingTasks[n]? = some task →
      o.handler.getEnv (.new task.fork.url (some provided.number)) = some env → env = provided.env
  | _ => True

/-! ### Steps and runs -/

variable {o o' : Observed} {op : HandlerOp}

variable {expected : HashMap ForkId Env}

/-- What a request does to the forks. -/
theorem onRequest_cases (h : MultiForkHandler) {req : Request} (hreq : req ≠ .shutDown) :
    handedOut (h.onRequest req).1 = [] ∧
    (((h.onRequest req).2.forks = h.forks ∧ (h.onRequest req).2.counters = h.counters ∧
        expect expected [] (.request req) = expected) ∨
      ∃ id f, (h.onRequest req).2 = h.modifyBlockEnv id f ∧
        expect expected [] (.request req) = edit expected id f) := by
  cases req with
  | createFork fork sender =>
    obtain ⟨hforks, hcounters⟩ := h.forks_createFork fork sender
    exact ⟨rfl, Or.inl ⟨hforks, hcounters, rfl⟩⟩
  | rollFork id block sender =>
    have hsame : handedOut (h.onRequest (.rollFork id block sender)).1 = [] ∧
        (h.onRequest (.rollFork id block sender)).2.forks = h.forks ∧
        (h.onRequest (.rollFork id block sender)).2.counters = h.counters := by
      simp only [onRequest]
      cases h.forks.lookup id with
      | none => exact ⟨rfl, rfl, rfl⟩
      | some fork => exact ⟨rfl, h.forks_createFork _ sender⟩
    exact ⟨hsame.1, Or.inl ⟨hsame.2.1, hsame.2.2, rfl⟩⟩
  | updateBlock id | updateEnv id => exact ⟨rfl, Or.inr ⟨id, _, rfl, rfl⟩⟩
  | shutDown => exact absurd rfl hreq
  | _ => exact ⟨rfl, Or.inl ⟨rfl, rfl, rfl⟩⟩

theorem handedOut_error (senders : List Sender) (err : String) :
    handedOut (senders.map (.created · (.error err))) = [] := by
  induction senders with
  | nil => rfl
  | cons sender senders ih => exact ih

theorem next_eq_some (h : o.next op = some o') :
    ∃ responses, o.handler.exec op = some (responses, o'.handler) ∧
      o'.handed = o.handed ++ handedOut responses ∧
      o'.expected = expect o.expected (handedOut responses) op := by
  obtain ⟨⟨responses, handler⟩, hexec, rfl⟩ := Option.map_eq_some_iff.mp h
  exact ⟨responses, hexec, rfl, rfl⟩

/-- A step leaves the forks alone, or edits one of them, or puts one under new identifiers. -/
theorem step_cases (hids : o.handler.Ids) (h : Step o op o') :
    (o'.handler.forks = o.handler.forks ∧ o'.handler.counters = o.handler.counters ∧
      o'.handed = o.handed ∧ o'.expected = o.expected ∧ Unedited o op) ∨
    (∃ id f, o'.handler = o.handler.modifyBlockEnv id f ∧ o'.handed = o.handed ∧
      o'.expected = edit o.expected id f ∧ Unedited o op) ∨
    ∃ n provided task fork id ids, op = .advance n (some (.ok provided)) ∧
      o.handler.pendingTasks[n]? = some task ∧ o.handler.Grows fork (id :: ids) o'.handler ∧
      o'.handed = o.handed ++ id :: ids ∧
      o'.expected = insertAll o.expected ((id :: ids).map (·, provided.env)) ∧
      fork.opts.env =
        (o.handler.getEnv (.new task.fork.url (some provided.number))).getD provided.env := by
  obtain ⟨hop, hnext⟩ := h
  obtain ⟨responses, hexec, hhanded, hexpected⟩ := next_eq_some hnext
  cases op with
  | request req =>
    have hreq : req ≠ .shutDown := by
      rintro rfl
      cases hop
    obtain ⟨hout, hcases⟩ := onRequest_cases o.handler hreq
    have hexec' : o.handler.onRequest req = (responses, o'.handler) := Option.some.inj hexec
    rw [hexec'] at hout hcases
    rw [hout] at hhanded hexpected
    rw [List.append_nil] at hhanded
    rcases hcases with ⟨hforks, hcounters, hsame⟩ | ⟨id, f, hhandler, hedit⟩
    · exact Or.inl ⟨hforks, hcounters, hhanded, hexpected.trans hsame, trivial⟩
    · exact Or.inr (Or.inl ⟨id, f, hhandler, hhanded, hexpected.trans hedit, trivial⟩)
  | advance n ready =>
    obtain ⟨task, htask, hadvance⟩ := Option.map_eq_some_iff.mp hexec
    cases ready with
    | none =>
      obtain ⟨rfl, hhandler⟩ := Prod.mk.inj hadvance
      refine Or.inl ⟨by rw [← hhandler], by rw [← hhandler], ?_, hexpected, trivial⟩
      rw [hhanded]
      exact List.append_nil _
    | some answer =>
      cases answer with
      | error err =>
        obtain ⟨rfl, hhandler⟩ := Prod.mk.inj hadvance
        refine Or.inl ⟨by rw [← hhandler], by rw [← hhandler], ?_, hexpected, trivial⟩
        rw [hhanded, handedOut_error]
        exact List.append_nil _
      | ok provided =>
        have hids' : ({ o.handler with
            pendingTasks := swapRemove o.handler.pendingTasks n } : MultiForkHandler).Ids :=
          hids.mono rfl (Nat.le_refl _) fun _ _ => Nat.le_refl _
        obtain ⟨fork, id, ids, hout, hgrows, henv⟩ :=
          grows_finish hids' task provided
        dsimp only at hadvance
        rw [hadvance] at hout hgrows
        rw [hout] at hhanded hexpected
        exact Or.inr (Or.inr ⟨n, provided, task, fork, id, ids, rfl, htask,
          ⟨hgrows.wf, hgrows.nodup, hgrows.fresh, hgrows.lookup⟩, hhanded, hexpected, henv⟩)

/-- The identifiers handed out are those that forks are kept under. -/
structure Inv (o : Observed) : Prop where
  ids : o.handler.Ids
  distinct : o.handed.Nodup
  handed : ∀ id, id ∈ o.handed ↔ (o.handler.forks.lookup id).isSome

theorem inv_new : new.Inv := by
  refine ⟨ids_new, List.nodup_nil, fun id => ?_⟩
  have hnone : new.handler.forks.lookup id = none := Finmap.lookup_empty id
  rw [hnone]
  simp [new]

theorem Inv.step (hinv : o.Inv) (h : Step o op o') : o'.Inv := by
  rcases step_cases hinv.ids h with ⟨hforks, hcounters, hhanded, -, -⟩ |
    ⟨id, f, hhandler, hhanded, -, -⟩ |
    ⟨n, provided, task, fork, id, ids, -, -, hgrows, hhanded, -, -⟩
  · refine ⟨hinv.ids.mono hforks (by rw [hcounters]) fun fork _ => ?_, hhanded ▸ hinv.distinct, ?_⟩
    · rw [counter, counter, hcounters]
    · rw [hhanded, hforks]
      exact hinv.handed
  · refine ⟨hhandler ▸ hinv.ids.modifyBlockEnv id f, hhanded ▸ hinv.distinct, fun id' => ?_⟩
    rw [hhanded, hhandler, lookup_modifyBlockEnv, Option.isSome_map]
    exact hinv.handed id'
  · refine ⟨hgrows.wf, ?_, fun id' => ?_⟩
    · rw [hhanded]
      refine List.nodup_append.mpr ⟨hinv.distinct, hgrows.nodup, ?_⟩
      rintro id' hold _ hnew rfl
      have hsome := (hinv.handed id').mp hold
      rw [hgrows.fresh id' hnew] at hsome
      cases hsome
    · rw [hhanded, List.mem_append, hgrows.lookup, hinv.handed]
      by_cases hnew : id' ∈ id :: ids
      · simp only [hnew, or_true, if_true, Option.isSome_some]
      · simp only [hnew, or_false, if_false]

theorem inv_of_run {ops : List HandlerOp} (h : Run Step new ops o) : o.Inv :=
  h.keeps inv_new Inv.step

/-- Each identifier shows what it should. -/
def EnvOk (o : Observed) : Prop :=
  ∀ id ∈ o.handed, ∃ env, o.handler.getEnv id = some env ∧ o.expected.lookup id = some env

theorem lookup_edit (id id' : ForkId) (f : BlockEnv → BlockEnv) :
    (edit expected id f).lookup id' = (expected.lookup id').map fun env =>
      if id' = id then env.mapBlockEnv f else env := by
  unfold edit
  cases hlookup : expected.lookup id with
  | none =>
    by_cases heq : id' = id
    · rw [heq, hlookup]
      rfl
    · simp [heq]
  | some env =>
    rw [lookup_insert_ite]
    by_cases heq : id' = id
    · subst heq
      rw [hlookup]
      simp
    · simp [heq]

theorem lastValue_map_const (ids : List ForkId) (env : Env) (id : ForkId) :
    lastValue (ids.map (·, env)) id = if id ∈ ids then some env else none := by
  split
  · rename_i hmem
    refine lastValue_of_mem (fun env' henv' => ?_) (List.mem_map_of_mem hmem)
    obtain ⟨_, -, heq⟩ := List.mem_map.mp henv'
    exact (Prod.mk.inj heq).2.symm
  · rename_i hmem
    refine lastValue_of_notMem fun env' henv' => ?_
    obtain ⟨_, hid, heq⟩ := List.mem_map.mp henv'
    exact hmem ((Prod.mk.inj heq).1 ▸ hid)

/-- Only a task that finds an edited fork makes an identifier show what it should not. -/
theorem envOk_step_iff (hinv : o.Inv) (henv : o.EnvOk) (h : Step o op o') :
    o'.EnvOk ↔ Unedited o op := by
  rcases step_cases hinv.ids h with ⟨hforks, -, hhanded, hexpected, hunedited⟩ |
    ⟨id, f, hhandler, hhanded, hexpected, hunedited⟩ |
    ⟨n, provided, task, fork, id, ids, rfl, htask, hgrows, hhanded, hexpected, hfork⟩
  · refine iff_of_true (fun id hid => ?_) hunedited
    rw [getEnv, hforks, hexpected]
    exact henv id (hhanded ▸ hid)
  · refine iff_of_true (fun id' hid => ?_) hunedited
    obtain ⟨env, hget, hlookup⟩ := henv id' (hhanded ▸ hid)
    obtain ⟨fork, hfork, rfl⟩ := Option.map_eq_some_iff.mp hget
    rw [getEnv, hhandler, lookup_modifyBlockEnv, hfork, hexpected,
      lookup_edit, hlookup]
    refine ⟨_, rfl, ?_⟩
    by_cases heq : id' = id <;> simp [heq]
  · have hnew : ∀ id' ∈ id :: ids, o'.handler.getEnv id' = some fork.opts.env ∧
        o'.expected.lookup id' = some provided.env := by
      intro id' hmem
      rw [getEnv, hgrows.lookup, if_pos hmem, hexpected, lookup_insertAll,
        lastValue_map_const, if_pos hmem]
      exact ⟨rfl, rfl⟩
    have hiff : Unedited o (.advance n (some (.ok provided))) ↔ fork.opts.env = provided.env := by
      rw [hfork]
      constructor
      · intro hunedited
        cases hget : o.handler.getEnv (.new task.fork.url (some provided.number)) with
        | none => rfl
        | some env => exact hunedited task env htask hget
      · intro heq task' env htask' hget
        cases htask.symm.trans htask'
        rwa [hget] at heq
    rw [hiff]
    constructor
    · intro henv'
      obtain ⟨env, hget, hlookup⟩ := henv' id (hhanded ▸ List.mem_append_right _ List.mem_cons_self)
      obtain ⟨hget', hlookup'⟩ := hnew id List.mem_cons_self
      cases hget.symm.trans hget'
      exact Option.some.inj (hlookup.symm.trans hlookup')
    · intro heq id' hmem
      by_cases hid : id' ∈ id :: ids
      · obtain ⟨hget, hlookup⟩ := hnew id' hid
        exact ⟨fork.opts.env, hget, heq ▸ hlookup⟩
      · rw [hhanded, List.mem_append] at hmem
        rw [getEnv, hgrows.lookup, if_neg hid, hexpected,
          lookup_insertAll, lastValue_map_const, if_neg hid, Option.none_or]
        exact henv id' (hmem.resolve_right hid)

/-- **Isolation of forks.** No identifier is handed out twice and each shows the environment of the
provider with the edits made under it, in those sequences of requests and completed tasks in which a
task never finds a fork whose environment is not the one that the provider gives. A task that finds
a fork shares it, with all edits. -/
theorem isolated_iff (ops : List HandlerOp) :
    (∀ done rest o, ops = done ++ rest → Run Step new done o → o.Isolated) ↔
      Run.Along Step new ops Unedited := by
  constructor
  · intro h done o op rest hops hr
    have hinv := inv_of_run hr
    have hiso := h done (op :: rest) o hops hr
    -- where a task succeeds there is a next state
    cases op with
    | request req => exact trivial
    | advance n ready =>
      cases ready with
      | none => exact trivial
      | some answer =>
        cases answer with
        | error err => exact trivial
        | ok provided =>
          intro task env htask hget
          obtain ⟨o', hnext⟩ : ∃ o', o.next (.advance n (some (.ok provided))) = some o' :=
            ⟨_, by rw [next, MultiForkHandler.exec, MultiForkHandler.advance, htask]; rfl⟩
          have hstep : Step o (.advance n (some (.ok provided))) o' := ⟨rfl, hnext⟩
          have hiso' := h (done ++ [.advance n (some (.ok provided))]) rest o'
            (by rw [hops]; simp) (.snoc hr hstep)
          exact (envOk_step_iff hinv hiso.env hstep).mp hiso'.env task env htask hget
  · intro h done rest o hops hr
    have henv : o.EnvOk := by
      refine (h.invariant (I := fun o => o.Inv ∧ o.EnvOk) ⟨inv_new, nofun⟩ ?_ hops hr).2
      intro o op o' hpair hunedited hstep
      obtain ⟨hinv, henv⟩ := hpair
      exact ⟨hinv.step hstep, (envOk_step_iff hinv henv hstep).mpr hunedited⟩
    exact ⟨(inv_of_run hr).distinct, henv⟩

/-! ### An edit that shows under another identifier -/

def sampleEnv (number : U256) : Env where
  evmEnv := ⟨⟨number, 0, 1, 30000000, 0, 0, none, none⟩, ⟨1, .prague, false, false, none⟩⟩
  tx := ⟨0, none⟩

def sampleProvided : Provided := ⟨sampleEnv 5, 5, .emptyDbWrapper 0 fun _ => 0⟩

def sampleOps : List HandlerOp :=
  [.request (.createFork ⟨"rpc", sampleEnv 0, some 5⟩ 0), .advance 0 (some (.ok sampleProvided)),
    .request (.updateBlock ⟨"rpc@0x5"⟩ 99 1),
    .request (.createFork ⟨"rpc", sampleEnv 0, some 5⟩ 1), .advance 0 (some (.ok sampleProvided))]

/-- A block number set on one identifier shows under the next one. -/
theorem edit_shows_elsewhere :
    ¬∀ done rest o, sampleOps = done ++ rest → Run Step new done o → o.Isolated := by
  intro h
  have hrun : (sampleOps.foldlM (fun o op => if !op.isShutDown then next o op else none) new).map
      (fun o => (o.handed, o.handler.getEnv ⟨"rpc@0x5-1"⟩, o.expected.lookup ⟨"rpc@0x5-1"⟩)) =
      some ([⟨"rpc@0x5"⟩, ⟨"rpc@0x5-1"⟩], some (sampleEnv 99), some (sampleEnv 5)) := by
    decide +kernel
  obtain ⟨o, ho, heq⟩ := Option.map_eq_some_iff.mp hrun
  simp only [Prod.mk.injEq] at heq
  obtain ⟨hhanded, hget, hexpected⟩ := heq
  have hr : Run Step new sampleOps o :=
    Run.guarded_of_foldlM (fun _ op hop => by simpa using hop) ho
  obtain ⟨env, henv, henv'⟩ := (h sampleOps [] o (List.append_nil _).symm hr).env ⟨"rpc@0x5-1"⟩
    (by rw [hhanded]; simp)
  have hsame : sampleEnv 99 = sampleEnv 5 := by
    rw [hget] at henv
    rw [hexpected] at henv'
    exact Option.some.inj (henv.trans henv'.symm)
  exact absurd hsame (by decide +kernel)

end Observed

end BaseAnvil.Forks
