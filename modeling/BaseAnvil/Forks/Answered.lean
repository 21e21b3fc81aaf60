import BaseAnvil.Forks.Multi

/-!
# BaseAnvil.Forks.Answered

Every request for a fork is answered exactly once (`evm/core/src/fork/multi.rs`).

A poll takes each task out of the vector, from the last one on, and puts it back at the end if it is
not ready. Below the place it is at, the vector is still as it was, so a poll comes by each task
once. A sender is owed an answer by one task until that task is ready. The future itself ends after
its channel is closed, and a caller who waits for an answer keeps the channel open.
-/

namespace BaseAnvil.Forks

open Lib ForkTask

/-- Who asks for a fork. -/
def Request.sender? : Request → Option Sender
  | .createFork _ sender | .rollFork _ _ sender => some sender
  | _ => none

/-- Who is told of a fork, or of an error. -/
def Response.sender? : Response → Option Sender
  | .created sender _ => some sender
  | _ => none

def ForkTask.senders (task : ForkTask) : List Sender := task.sender :: task.additional

namespace MultiForkHandler

/-- The tasks that are ready in one poll, with what their providers return. -/
abbrev Ready := Nat → Option (Except String Provided)

def asked (requests : List Request) : List Sender := requests.filterMap Request.sender?

def answered (responses : List Response) : List Sender := responses.filterMap Response.sender?

/-- The senders that wait for tasks. -/
def waiting (tasks : List ForkTask) : List Sender := tasks.flatMap ForkTask.senders

/-- The tasks that a poll finds ready, or those that it does not. -/
def polled (ready : Ready) (isReady : Bool) (tasks : List ForkTask) : List ForkTask :=
  (tasks.zipIdx.filter fun task => (ready task.2).isSome == isReady).map (·.1)

/-- A handler, with who asked for a fork so far and who was answered. -/
structure Record where
  handler : MultiForkHandler
  asked : List Sender
  answered : List Sender

def record (r : Record) (poll : List Request × Ready) : Option Record :=
  (r.handler.poll poll.1 poll.2).map fun (responses, handler) =>
    ⟨handler, r.asked ++ asked poll.1, r.answered ++ answered responses⟩

/-- A poll, once it has the requests, comes by each task once: it answers all who wait for those
that are ready, and keeps the others. -/
structure ComesByEach (h : MultiForkHandler) (requests : List Request) (ready : Ready)
    (responses : List Response) (h' : MultiForkHandler) : Prop where
  kept : h'.pendingTasks.Perm (polled ready false (h.receive requests).2.pendingTasks)
  answers : answered responses = answered (h.receive requests).1 ++
    waiting (polled ready true (h.receive requests).2.pendingTasks).reverse

variable (ready : Ready)

@[simp] theorem answered_append (l l' : List Response) :
    answered (l ++ l') = answered l ++ answered l' := List.filterMap_append

@[simp] theorem waiting_append (l l' : List ForkTask) :
    waiting (l ++ l') = waiting l ++ waiting l' := List.flatMap_append

@[simp] theorem waiting_cons (l : List ForkTask) :
    waiting (task :: l) = task.senders ++ waiting l := List.flatMap_cons

/-! ### Requests -/

section

variable (x : Sender) (h : MultiForkHandler)

theorem count_joinTask {id : ForkId} {sender : Sender} {tasks tasks' : List ForkTask}
    (h : joinTask id sender tasks = some tasks') :
    (waiting tasks').count x = (sender :: waiting tasks).count x := by
  induction tasks generalizing tasks' with
  | nil => cases h
  | cons task tasks ih =>
    rw [joinTask] at h
    split at h
    · cases h
      simp [senders, List.count_cons]
      omega
    · obtain ⟨rest, hrest, rfl⟩ := Option.map_eq_some_iff.mp h
      have hcount := ih hrest
      simp [List.count_cons] at hcount ⊢
      omega

theorem count_createFork (fork : CreateFork) (sender : Sender) :
    (waiting (h.createFork fork sender).pendingTasks).count x =
      (sender :: waiting h.pendingTasks).count x := by
  unfold createFork
  dsimp only
  split
  · exact count_joinTask x ‹_›
  · simp [waiting, senders, List.count_cons]

theorem count_onRequest (req : Request) :
    (asked [req]).count x + (waiting h.pendingTasks).count x =
      (answered (h.onRequest req).1).count x +
        (waiting (h.onRequest req).2.pendingTasks).count x := by
  cases req with
  | createFork fork sender =>
    simp [onRequest, count_createFork, asked, answered, Request.sender?, List.count_cons,
      Nat.add_comm]
  | rollFork id block sender =>
    rw [onRequest]
    split <;> simp [count_createFork, asked, answered, Request.sender?, Response.sender?,
      List.count_cons, Nat.add_comm]
  | updateBlock id number timestamp =>
    simp only [onRequest, updateBlock, modifyBlockEnv]
    split <;> rfl
  | updateEnv id env =>
    simp only [onRequest, updateEnv, modifyBlockEnv]
    split <;> rfl
  | _ => rfl

theorem count_receive (reqs : List Request) :
    (asked reqs).count x + (waiting h.pendingTasks).count x =
      (answered (h.receive reqs).1).count x +
        (waiting (h.receive reqs).2.pendingTasks).count x := by
  induction reqs generalizing h with
  | nil => rfl
  | cons req reqs ih =>
    have hreq := count_onRequest x h req
    have hrest := ih (h.onRequest req).2
    have hasked : asked (req :: reqs) = asked [req] ++ asked reqs := by
      rw [asked, ← List.singleton_append, List.filterMap_append]
      rfl
    simp only [receive, hasked, answered_append, List.count_append]
    omega

end

/-! ### Tasks -/

variable {h : MultiForkHandler}

theorem notifyAdditional_spec (fork : CreatedFork) (forkId : ForkId) (h : MultiForkHandler)
    (senders : List Sender) :
    answered (notifyAdditional fork forkId h senders).1 = senders ∧
      (notifyAdditional fork forkId h senders).2.pendingTasks = h.pendingTasks := by
  induction senders generalizing h with
  | nil => exact ⟨rfl, rfl⟩
  | cons sender senders ih =>
    obtain ⟨hsenders, htasks⟩ := ih { (h.incSenders fork forkId).2 with
      forks := (h.incSenders fork forkId).2.forks.insert (h.incSenders fork forkId).1 fork }
    exact ⟨congrArg (sender :: ·) hsenders, htasks⟩

theorem finish_spec (h : MultiForkHandler) (task : ForkTask) (provided : Provided) :
    answered (h.finish task provided).1 = task.senders ∧
      (h.finish task provided).2.pendingTasks = h.pendingTasks := by
  unfold finish insertNewFork
  dsimp only
  split
  all_goals
    obtain ⟨hsenders, htasks⟩ := notifyAdditional_spec _ _ _ task.additional
    exact ⟨congrArg (task.sender :: ·) hsenders, htasks⟩

/-- One round: the tasks before the one that is polled stay where they are. -/
theorem advance_spec {h : MultiForkHandler} {before after : List ForkTask} {task : ForkTask}
    (hp : h.pendingTasks = before ++ task :: after) :
    ∃ responses h' rest, h.advance before.length (ready before.length) = some (responses, h') ∧
      h'.pendingTasks = before ++ rest ∧
      rest.Perm ((if (ready before.length).isSome then [] else [task]) ++ after) ∧
      answered responses = if (ready before.length).isSome then task.senders else [] := by
  obtain ⟨rest, hswap, hperm⟩ := swapRemove_append_cons before task after
  have htask : h.pendingTasks[before.length]? = some task := by simp [hp]
  rw [← hp] at hswap
  rw [advance, htask]
  cases ready before.length with
  | none =>
    refine ⟨_, _, rest ++ [task], rfl, by simp [hswap], ?_, rfl⟩
    exact (hperm.append_right _).trans List.perm_append_comm
  | some answer =>
    cases answer with
    | error err =>
      refine ⟨_, _, rest, rfl, hswap, hperm, ?_⟩
      simp [answered, List.filterMap_map, Function.comp_def, Response.sender?, senders]
    | ok provided =>
      obtain ⟨hsenders, htasks⟩ :=
        finish_spec { h with pendingTasks := swapRemove h.pendingTasks before.length } task provided
      exact ⟨_, _, rest, rfl, htasks.trans hswap, hperm, hsenders⟩

theorem polled_concat (isReady : Bool) (tasks : List ForkTask) :
    polled ready isReady (tasks ++ [task]) = polled ready isReady tasks ++
      if (ready tasks.length).isSome = isReady then [task] else [] := by
  simp only [polled, List.zipIdx_append, List.filter_append, List.map_append, List.zipIdx_cons,
    List.zipIdx_nil, List.filter_cons, beq_iff_eq, Nat.zero_add]
  split <;> rfl

/-- All rounds of a poll. -/
theorem advanceAll_spec {h : MultiForkHandler} {before after : List ForkTask}
    (hp : h.pendingTasks = before ++ after) :
    ∃ responses h', advanceAll ready h before.length = some (responses, h') ∧
      h'.pendingTasks.Perm (polled ready false before ++ after) ∧
      answered responses = waiting (polled ready true before).reverse := by
  induction before using List.reverseRecOn generalizing h after with
  | nil => exact ⟨[], h, rfl, by simp [hp, polled], rfl⟩
  | append_singleton before task ih =>
    rw [List.append_assoc] at hp
    obtain ⟨responses, h₁, rest, hadvance, hp₁, hperm, hsenders⟩ := advance_spec ready hp
    obtain ⟨responses', h', hrest, hperm', hsenders'⟩ := ih hp₁
    refine ⟨responses ++ responses', h', by simp [advanceAll, hadvance, hrest], ?_, ?_⟩
    · refine hperm'.trans ((hperm.append_left _).trans (.of_eq ?_))
      rw [polled_concat, List.append_assoc]
      cases (ready before.length).isSome <;> rfl
    · rw [answered_append, hsenders, hsenders', polled_concat, List.reverse_append, waiting_append]
      cases (ready before.length).isSome <;> simp [waiting]

theorem poll_spec (requests : List Request) (ready : Ready) :
    ∃ responses h', h.poll requests ready = some (responses, h') ∧
      h.ComesByEach requests ready responses h' := by
  obtain ⟨responses, h', hall, hperm, hsenders⟩ :=
    advanceAll_spec ready (List.append_nil (h.receive requests).2.pendingTasks).symm
  refine ⟨(h.receive requests).1 ++ responses, h', by simp [poll, hall], by simpa using hperm, ?_⟩
  rw [answered_append, hsenders]

theorem count_polled (tasks : List ForkTask) (x : Sender) :
    (waiting (polled ready true tasks).reverse).count x +
      (waiting (polled ready false tasks)).count x = (waiting tasks).count x := by
  induction tasks using List.reverseRecOn with
  | nil => rfl
  | append_singleton tasks task ih =>
    simp only [polled_concat, List.reverse_append, waiting_append, List.count_append] at ih ⊢
    cases (ready tasks.length).isSome <;> simp [waiting] at ih ⊢ <;> omega

/-- **Exactly once.** However the requests come in and the tasks become ready, who asked for a fork
was answered once or waits for one task, and every further poll comes by each task once. -/
theorem polls_answer_once (polls : List (List Request × Ready)) :
    ∃ r, polls.foldlM record ⟨new, [], []⟩ = some r ∧
      r.asked.Perm (r.answered ++ waiting r.handler.pendingTasks) ∧
      ∀ requests ready, ∃ responses h', r.handler.poll requests ready = some (responses, h') ∧
        r.handler.ComesByEach requests ready responses h' := by
  induction polls using List.reverseRecOn with
  | nil => exact ⟨_, rfl, .refl _, poll_spec⟩
  | append_singleton polls poll ih =>
    obtain ⟨r, hrun, hasked, hpoll⟩ := ih
    obtain ⟨responses, h', hnext, heach⟩ := hpoll poll.1 poll.2
    refine ⟨⟨h', r.asked ++ asked poll.1, r.answered ++ answered responses⟩, ?_, ?_, poll_spec⟩
    · simp [hrun, record, hnext]
    · rw [List.perm_iff_count] at hasked ⊢
      intro x
      have hreceive := count_receive x r.handler poll.1
      have hpolled := count_polled poll.2 (r.handler.receive poll.1).2.pendingTasks x
      have hkept : (waiting h'.pendingTasks).count x = _ := (heach.kept.flatMap_right _).count_eq x
      have hprev := hasked x
      simp only [heach.answers, List.count_append] at hprev ⊢
      unfold waiting at *
      omega

end MultiForkHandler

end BaseAnvil.Forks
