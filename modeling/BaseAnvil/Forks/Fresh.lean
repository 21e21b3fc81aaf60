import BaseAnvil.Forks.Multi
import Mathlib.Data.List.TakeWhile

/-!
# BaseAnvil.Forks.Fresh

The identifiers that the handler of the forks makes up are new.

An identifier that is made up ends in a number, which the counter of the fork has not had
before, and all identifiers that are derived from one another share a counter. What an
identifier was derived from can be read off it: a URL may have any text, but what follows
its last at sign is a number, and then come the numbers that were added.
-/

namespace BaseAnvil.Forks

open Lib Chain ForkId HashMap Finmap

/-! ### Identifiers -/

/-- A list is split in one way only at the last occurrence of an element. -/
theorem append_cons_inj_of_notMem {α : Type} {c : α} {x x' v v' : List α} (hv : c ∉ v)
    (hv' : c ∉ v') (h : x ++ c :: v = x' ++ c :: v') : x = x' ∧ v = v' := by
  rcases List.append_eq_append_iff.mp h with ⟨t, hx, ht⟩ | ⟨t, hx, ht⟩
  · cases t with
    | nil => exact ⟨by simpa using hx.symm, by simpa using ht⟩
    | cons _ t =>
      obtain ⟨-, rfl⟩ := List.cons.inj ht
      simp at hv
  · cases t with
    | nil => exact ⟨by simpa using hx, by simpa using ht.symm⟩
    | cons _ t =>
      obtain ⟨-, rfl⟩ := List.cons.inj ht
      simp at hv'

/-- What comes before the first dash that follows the last at sign. -/
def rootChars (s : List Char) : List Char :=
  (s.reverse.dropWhile (· ≠ '@')).reverse ++
    ((s.reverse.takeWhile (· ≠ '@')).reverse.takeWhile (· ≠ '-'))

theorem rootChars_append (x : List Char) {v : List Char} (hv : '@' ∉ v) :
    rootChars (x ++ '@' :: v) = x ++ '@' :: v.takeWhile (· ≠ '-') := by
  have hall : ∀ c ∈ v.reverse, decide (c ≠ '@') = true := by
    intro c hc
    have hne : c ≠ '@' := fun heq => hv (heq ▸ List.mem_reverse.mp hc)
    simpa using hne
  have hreverse : (x ++ '@' :: v).reverse = v.reverse ++ '@' :: x.reverse := by simp
  unfold rootChars
  rw [hreverse, List.dropWhile_append_of_pos hall, List.takeWhile_append_of_pos hall]
  simp

namespace ForkId

/-- The identifier that another one was derived from. -/
def root (id : ForkId) : ForkId := ⟨String.ofList (rootChars id.id.toList)⟩

theorem toList_suffixed (id : ForkId) (n : Nat) :
    (id.suffixed n).id.toList = id.id.toList ++ '-' :: Nat.toDigits 10 n := by
  simp [suffixed, Nat.repr]

theorem dash_notMem_digits (n : Nat) : '-' ∉ Nat.toDigits 10 n := by
  intro hmem
  have hdigit := Nat.isDigit_of_mem_toDigits (by decide) (by decide) hmem
  simp at hdigit

theorem at_notMem_digits (n : Nat) : '@' ∉ Nat.toDigits 10 n := by
  intro hmem
  have hdigit := Nat.isDigit_of_mem_toDigits (by decide) (by decide) hmem
  simp at hdigit

variable {id : ForkId}

theorem suffixed_inj {id' : ForkId} {n n' : Nat} (h : id.suffixed n = id'.suffixed n') :
    id = id' ∧ n = n' := by
  have hlist : (id.suffixed n).id.toList = (id'.suffixed n').id.toList := by rw [h]
  rw [toList_suffixed, toList_suffixed] at hlist
  obtain ⟨hid, hdigits⟩ :=
    append_cons_inj_of_notMem (dash_notMem_digits n) (dash_notMem_digits n') hlist
  refine ⟨?_, ?_⟩
  · cases id
    cases id'
    exact congrArg _ (String.toList_injective hid)
  · calc n = Nat.ofDigitChars 10 (Nat.toDigits 10 n) 0 := Nat.ofDigitChars_ten_toDigits.symm
      _ = Nat.ofDigitChars 10 (Nat.toDigits 10 n') 0 := by rw [hdigits]
      _ = n' := Nat.ofDigitChars_ten_toDigits

/-- Hexadecimal digits are neither dashes nor at signs. -/
theorem mem_toDigits_sixteen {n : Nat} {c : Char} (h : c ∈ Nat.toDigits 16 n) :
    c ≠ '-' ∧ c ≠ '@' := by
  have hdigit : ∀ d, d < 16 → Nat.digitChar d ≠ '-' ∧ Nat.digitChar d ≠ '@' := by decide
  induction n using Nat.strongRecOn with
  | _ n ih =>
    by_cases hlt : n < 16
    · rw [Nat.toDigits_of_lt_base hlt] at h
      rw [List.mem_singleton.mp h]
      exact hdigit n hlt
    · rw [Nat.toDigits_of_base_le (by decide) (by omega)] at h
      rcases List.mem_append.mp h with hhigh | hlow
      · exact ih (n / 16) (by omega) hhigh
      · rw [List.mem_singleton.mp hlow]
        exact hdigit _ (Nat.mod_lt _ (by decide))

theorem toList_new (url : String) (n : UInt64) :
    (new url (some n)).id.toList = url.toList ++ '@' :: '0' :: 'x' :: Nat.toDigits 16 n.toNat := by
  simp [new]

/-- The identifier of a fork at a block is derived from no other. -/
theorem root_new (url : String) (n : UInt64) : (new url (some n)).root = new url (some n) := by
  have hat : '@' ∉ '0' :: 'x' :: Nat.toDigits 16 n.toNat := by
    simp only [List.mem_cons, not_or]
    exact ⟨by decide, by decide, fun h => (mem_toDigits_sixteen h).2 rfl⟩
  have hdash : ∀ c ∈ '0' :: 'x' :: Nat.toDigits 16 n.toNat, decide (c ≠ '-') = true := by
    intro c hc
    simp only [List.mem_cons] at hc
    rcases hc with rfl | rfl | hc
    · decide
    · decide
    · simpa using (mem_toDigits_sixteen hc).1
  have hroot : rootChars (new url (some n)).id.toList = (new url (some n)).id.toList := by
    rw [toList_new, rootChars_append _ hat, List.takeWhile_eq_self_iff.mpr hdash]
  unfold root
  rw [hroot, String.ofList_toList]

/-- The dash of a suffix changes nothing before it. -/
theorem takeWhile_append_dash (v w : List Char) :
    (v ++ '-' :: w).takeWhile (· ≠ '-') = v.takeWhile (· ≠ '-') := by
  rw [List.takeWhile_append]
  split
  · rename_i hlength
    rw [(List.takeWhile_prefix _).eq_of_length hlength]
    simp
  · rfl

theorem root_suffixed (hat : '@' ∈ id.id.toList) (n : Nat) : (id.suffixed n).root = id.root := by
  obtain ⟨w, x, hsplit, hw⟩ := List.eq_append_cons_of_mem (List.mem_reverse.mpr hat)
  have hlist : id.id.toList = x.reverse ++ '@' :: w.reverse := by
    rw [← List.reverse_reverse id.id.toList, hsplit]
    simp
  have hw' : '@' ∉ w.reverse := fun hmem => hw (List.mem_reverse.mp hmem)
  have hsuffix : '@' ∉ w.reverse ++ '-' :: Nat.toDigits 10 n := by
    simp only [List.mem_append, List.mem_cons, not_or]
    exact ⟨hw', by decide, at_notMem_digits n⟩
  unfold root
  rw [toList_suffixed, hlist, List.append_assoc, List.cons_append, rootChars_append _ hw',
    rootChars_append _ hsuffix, takeWhile_append_dash]

theorem length_rootChars_le (s : List Char) : (rootChars s).length ≤ s.length := by
  have hsplit := congrArg List.length
    (List.takeWhile_append_dropWhile (p := fun c : Char => decide (c ≠ '@')) (l := s.reverse))
  have hle := (List.takeWhile_prefix (fun c : Char => decide (c ≠ '-'))
    (l := (s.reverse.takeWhile (· ≠ '@')).reverse)).length_le
  rw [List.length_append, List.length_reverse] at hsplit
  rw [List.length_reverse] at hle
  rw [rootChars, List.length_append, List.length_reverse]
  omega

/-- What is derived is not the identifier of a fork at a block. -/
theorem new_ne_suffixed (url : String) (n : UInt64) (k : Nat) :
    new url (some n) ≠ id.suffixed k := by
  intro h
  have hlist := toList_new url n
  rw [h, toList_suffixed] at hlist
  have hat : '@' ∈ id.id.toList := by
    have hmem : '@' ∈ id.id.toList ++ '-' :: Nat.toDigits 10 k := by
      rw [hlist]
      simp
    rcases List.mem_append.mp hmem with hmem | hmem
    · exact hmem
    · exact absurd hmem (by simp [at_notMem_digits])
  have hroot := root_new url n
  rw [h, root_suffixed hat] at hroot
  have hle := length_rootChars_le id.id.toList
  have hroot' : rootChars id.id.toList = (id.suffixed k).id.toList := by
    rw [← hroot, root, String.toList_ofList]
  rw [hroot', toList_suffixed, List.length_append, List.length_cons] at hle
  omega

theorem at_mem_new (url : String) (n : UInt64) : '@' ∈ (new url (some n)).id.toList := by
  simp [toList_new]

theorem at_mem_suffixed (h : '@' ∈ id.id.toList) (k : Nat) : '@' ∈ (id.suffixed k).id.toList := by
  rw [toList_suffixed]
  exact List.mem_append_left _ h

end ForkId

/-! ### Fresh identifiers -/

variable {h h' : MultiForkHandler} {fork : CreatedFork} {forkId id : ForkId}
  {rootFork : CreatedFork}

namespace MultiForkHandler

/-- The identifiers that forks are kept under: the one that an identifier is derived from is
there, with the same counter, and the counter is past the number in the identifier. -/
structure Ids (h : MultiForkHandler) : Prop where
  inRange : ∀ id fork, h.forks.lookup id = some fork → fork.numSenders < h.counters.length
  hasAt : ∀ id fork, h.forks.lookup id = some fork → '@' ∈ id.id.toList
  root : ∀ id fork, h.forks.lookup id = some fork →
    ∃ rootFork, h.forks.lookup id.root = some rootFork ∧ rootFork.numSenders = fork.numSenders
  below : ∀ (id : ForkId) k fork, h.forks.lookup (id.suffixed k) = some fork → k < h.counter fork

theorem ids_new : new.Ids := by
  have hnone : ∀ id fork, new.forks.lookup id ≠ some fork := by
    intro id fork hid
    cases (lookup_empty id).symm.trans hid
  exact ⟨fun id fork hid => absurd hid (hnone id fork),
    fun id fork hid => absurd hid (hnone id fork),
    fun id fork hid => absurd hid (hnone id fork), fun id k fork hid => absurd hid (hnone _ fork)⟩

/-- Counters only grow. -/
theorem Ids.mono (hids : h.Ids) (hforks : h'.forks = h.forks)
    (hlength : h.counters.length ≤ h'.counters.length)
    (hcounter : ∀ fork : CreatedFork, fork.numSenders < h.counters.length →
      h.counter fork ≤ h'.counter fork) : h'.Ids where
  inRange id fork hid := Nat.lt_of_lt_of_le (hids.inRange id fork (hforks ▸ hid)) hlength
  hasAt id fork hid := hids.hasAt id fork (hforks ▸ hid)
  root id fork hid := by
    rw [hforks] at hid ⊢
    exact hids.root id fork hid
  below id k fork hid := by
    rw [hforks] at hid
    exact Nat.lt_of_lt_of_le (hids.below id k fork hid) (hcounter fork (hids.inRange _ fork hid))

/-- A fork under a new identifier. -/
theorem Ids.insert (hids : h.Ids) (hnone : h.forks.lookup id = none)
    (hrange : fork.numSenders < h.counters.length) (hat : '@' ∈ id.id.toList)
    (hroot : id.root = id ∨ ∃ rootFork, h.forks.lookup id.root = some rootFork ∧
      rootFork.numSenders = fork.numSenders)
    (hbelow : ∀ (id' : ForkId) k, id = id'.suffixed k → k < h.counter fork) :
    ({ h with forks := h.forks.insert id fork } : MultiForkHandler).Ids := by
  -- what was there is there
  have hkeep : ∀ id' f, h.forks.lookup id' = some f →
      (h.forks.insert id fork).lookup id' = some f := by
    intro id' f hid'
    rw [lookup_insert_ite, if_neg]
    · exact hid'
    · rintro rfl
      cases hnone.symm.trans hid'
  refine ⟨fun id' f hid' => ?_, fun id' f hid' => ?_, fun id' f hid' => ?_, fun id' k f hid' => ?_⟩
  all_goals
    rw [lookup_insert_ite] at hid'
    split at hid'
  · cases hid'
    exact hrange
  · exact hids.inRange id' f hid'
  · rename_i heq
    rw [heq]
    exact hat
  · exact hids.hasAt id' f hid'
  · rename_i heq
    cases hid'
    rw [heq]
    rcases hroot with hself | ⟨rootFork, hrootFork, hsame⟩
    · exact ⟨fork, by rw [hself]; exact lookup_insert _, rfl⟩
    · exact ⟨rootFork, hkeep _ _ hrootFork, hsame⟩
  · obtain ⟨rootFork, hrootFork, hsame⟩ := hids.root id' f hid'
    exact ⟨rootFork, hkeep _ _ hrootFork, hsame⟩
  · rename_i heq
    cases hid'
    exact hbelow id' k heq.symm
  · exact hids.below id' k f hid'

theorem counter_set {i n : Nat} (hrange : i < h.counters.length) :
    ({ h with counters := h.counters.set i n } : MultiForkHandler).counter fork =
      if fork.numSenders = i then n else h.counter fork := by
  unfold counter
  by_cases heq : fork.numSenders = i
  · simp [heq, hrange, List.getD_eq_getElem?_getD]
  · simp [heq, Ne.symm heq, List.getD_eq_getElem?_getD]

/-- Another consumer of a fork gets an identifier that is not in use. -/
theorem Ids.incSenders (hids : h.Ids) (hrange : fork.numSenders < h.counters.length)
    (hat : '@' ∈ forkId.id.toList) (hroot : h.forks.lookup forkId.root = some rootFork)
    (hsame : rootFork.numSenders = fork.numSenders) :
    (h.incSenders fork forkId).2.Ids ∧ (h.incSenders fork forkId).2.forks = h.forks ∧
      h.forks.lookup (h.incSenders fork forkId).1 = none ∧
      ∀ (id : ForkId) k, (h.incSenders fork forkId).1 = id.suffixed k →
        k < (h.incSenders fork forkId).2.counter fork := by
  have hcounter : ∀ f : CreatedFork, (h.incSenders fork forkId).2.counter f =
      if f.numSenders = fork.numSenders then h.counter fork + 1 else h.counter f :=
    fun f => counter_set hrange
  have hcong : ∀ f : CreatedFork, f.numSenders = fork.numSenders →
      h.counter f = h.counter fork := by
    intro f hf
    unfold counter
    rw [hf]
  refine ⟨hids.mono rfl (by simp [MultiForkHandler.incSenders]) fun f _ => ?_, rfl, ?_, ?_⟩
  · rw [hcounter]
    split
    · rename_i heq
      rw [hcong f heq]
      omega
    · exact Nat.le_refl _
  · -- the number in the identifier would be below the counter
    cases hlookup : h.forks.lookup (h.incSenders fork forkId).1 with
    | none => rfl
    | some f =>
      obtain ⟨rootFork', hroot', hsame'⟩ := hids.root _ f hlookup
      rw [MultiForkHandler.incSenders, root_suffixed hat] at hroot'
      cases hroot.symm.trans hroot'
      have hbelow := hids.below forkId (h.counter fork) f hlookup
      rw [hcong f (hsame'.symm.trans hsame)] at hbelow
      omega
  · intro id k hid
    obtain ⟨-, rfl⟩ := suffixed_inj hid
    rw [hcounter, if_pos rfl]
    omega

end MultiForkHandler

/-- The identifier that a response hands out. -/
def Response.handedId : Response → Option ForkId
  | .created _ (.ok (id, _)) => some id
  | _ => none

def handedOut (responses : List Response) : List ForkId := responses.filterMap Response.handedId

namespace MultiForkHandler

/-- The fork is put under new identifiers, all different. -/
structure Grows (h : MultiForkHandler) (fork : CreatedFork) (ids : List ForkId)
    (h' : MultiForkHandler) : Prop where
  wf : h'.Ids
  nodup : ids.Nodup
  fresh : ∀ id ∈ ids, h.forks.lookup id = none
  lookup : ∀ id, h'.forks.lookup id = if id ∈ ids then some fork else h.forks.lookup id

/-- One more identifier, before the others. -/
theorem Grows.cons {ids : List ForkId} {h₁ : MultiForkHandler}
    (hforks : h₁.forks = h.forks.insert id fork) (hnone : h.forks.lookup id = none)
    (hgrows : Grows h₁ fork ids h') : Grows h fork (id :: ids) h' := by
  have hlookup :
      ∀ id', h₁.forks.lookup id' = if id' = id then some fork else h.forks.lookup id' := by
    intro id'
    rw [hforks, lookup_insert_ite]
  have hne : ∀ id' ∈ ids, id' ≠ id := by
    rintro id' hmem rfl
    have hfresh := hgrows.fresh id' hmem
    rw [hlookup, if_pos rfl] at hfresh
    cases hfresh
  refine ⟨hgrows.wf, List.nodup_cons.mpr ⟨fun hmem => hne id hmem rfl, hgrows.nodup⟩, ?_, ?_⟩
  · intro id' hmem
    rcases List.mem_cons.mp hmem with rfl | hmem
    · exact hnone
    · have hfresh := hgrows.fresh id' hmem
      rwa [hlookup, if_neg (hne id' hmem)] at hfresh
  · intro id'
    rw [hgrows.lookup, hlookup]
    by_cases hmem : id' ∈ ids
    · simp [hmem]
    · by_cases heq : id' = id <;> simp [hmem, heq]

theorem grows_notifyAdditional (hids : h.Ids) (hrange : fork.numSenders < h.counters.length)
    (hat : '@' ∈ forkId.id.toList) (hroot : h.forks.lookup forkId.root = some rootFork)
    (hsame : rootFork.numSenders = fork.numSenders) (senders : List Sender) :
    Grows h fork (handedOut (notifyAdditional fork forkId h senders).1)
      (notifyAdditional fork forkId h senders).2 := by
  induction senders generalizing h with
  | nil => exact ⟨hids, List.nodup_nil, nofun, fun id => rfl⟩
  | cons sender senders ih =>
    obtain ⟨hids₁, hforks, hnone, hbelow⟩ := hids.incSenders hrange hat hroot hsame
    have hrange₁ : fork.numSenders < (h.incSenders fork forkId).2.counters.length := by
      simpa [incSenders] using hrange
    have hroot₁ : (h.incSenders fork forkId).1.root = forkId.root := root_suffixed hat _
    have hat₁ : '@' ∈ (h.incSenders fork forkId).1.id.toList := at_mem_suffixed hat _
    have hids₂ := hids₁.insert (hforks ▸ hnone) hrange₁ hat₁
      (Or.inr ⟨rootFork, by rw [hroot₁, hforks, hroot], hsame⟩) hbelow
    refine Grows.cons (by rw [← hforks]) hnone (ih hids₂ hrange₁ ?_)
    show (Finmap.insert _ fork (h.incSenders fork forkId).2.forks).lookup _ = _
    rw [lookup_insert_ite, if_neg, hforks, hroot]
    intro heq
    rw [heq] at hroot
    cases hroot.symm.trans hnone

theorem grows_insertNewFork (hids : h.Ids) (hnone : h.forks.lookup forkId = none)
    (hrange : fork.numSenders < h.counters.length) (hat : '@' ∈ forkId.id.toList)
    (hroot : forkId.root = forkId ∨ ∃ rootFork, h.forks.lookup forkId.root = some rootFork ∧
      rootFork.numSenders = fork.numSenders)
    (hbelow : ∀ (id : ForkId) k, forkId = id.suffixed k → k < h.counter fork) (sender : Sender)
    (additional : List Sender) :
    ∃ ids, handedOut (h.insertNewFork forkId fork sender additional).1 = forkId :: ids ∧
      Grows h fork (forkId :: ids) (h.insertNewFork forkId fork sender additional).2 := by
  have hids₁ := hids.insert hnone hrange hat hroot hbelow
  have hroot₁ : ∃ rootFork, (h.forks.insert forkId fork).lookup forkId.root = some rootFork ∧
      rootFork.numSenders = fork.numSenders := by
    rw [lookup_insert_ite]
    split
    · exact ⟨fork, rfl, rfl⟩
    · rename_i hne
      exact hroot.resolve_left hne
  obtain ⟨rootFork, hrootFork, hsame⟩ := hroot₁
  exact ⟨_, rfl,
    .cons rfl hnone (grows_notifyAdditional hids₁ hrange hat hrootFork hsame additional)⟩

/-- What a task that succeeds hands out: the fork that is there already, or the new one. -/
theorem grows_finish (hids : h.Ids) (task : ForkTask) (provided : Provided) :
    ∃ fork id ids, handedOut (h.finish task provided).1 = id :: ids ∧
      Grows h fork (id :: ids) (h.finish task provided).2 ∧
      fork.opts.env =
        (h.getEnv (.new task.fork.url (some provided.number))).getD provided.env := by
  have hids₁ : (h.establish task.fork provided).2.Ids := by
    refine hids.mono rfl (by simp [establish]) fun f hf => ?_
    simp [counter, establish, List.getD_eq_getElem?_getD, List.getElem?_append_left hf]
  cases hlookup : h.forks.lookup (.new task.fork.url (some provided.number)) with
  | none =>
    have hfinish : h.finish task provided = (h.establish task.fork provided).2.insertNewFork
        (.new task.fork.url (some provided.number)) (h.establish task.fork provided).1.2
        task.sender task.additional := by
      simp only [finish, establish]
      rw [hlookup]
    obtain ⟨ids, hout, hgrows⟩ := @grows_insertNewFork (h.establish task.fork provided).2
      (h.establish task.fork provided).1.2 (.new task.fork.url (some provided.number)) hids₁ hlookup
      (by simp [establish]) (at_mem_new _ _) (Or.inl (ForkId.root_new _ _))
      (fun id k heq => absurd heq (new_ne_suffixed _ _ k)) task.sender task.additional
    rw [hfinish]
    refine ⟨_, _, ids, hout, ⟨hgrows.wf, hgrows.nodup, hgrows.fresh, hgrows.lookup⟩, ?_⟩
    simp [getEnv, hlookup, establish]
  | some fork =>
    have hfinish : h.finish task provided =
        ((h.establish task.fork provided).2.incSenders fork
          (.new task.fork.url (some provided.number))).2.insertNewFork
        ((h.establish task.fork provided).2.incSenders fork
          (.new task.fork.url (some provided.number))).1 fork task.sender task.additional := by
      simp only [finish, establish]
      rw [hlookup]
    have hrange := hids₁.inRange _ fork hlookup
    have hat := at_mem_new task.fork.url provided.number
    have hroot : (h.establish task.fork provided).2.forks.lookup
        (ForkId.new task.fork.url (some provided.number)).root = some fork := by
      rw [ForkId.root_new]
      exact hlookup
    obtain ⟨hids₂, hforks, hnone, hbelow⟩ := hids₁.incSenders hrange hat hroot rfl
    obtain ⟨ids, hout, hgrows⟩ := grows_insertNewFork hids₂ (hforks ▸ hnone)
      (by simpa [incSenders] using hrange) (at_mem_suffixed hat _)
      (Or.inr ⟨fork, by rw [hforks]; exact (root_suffixed hat _).symm ▸ hroot, rfl⟩) hbelow
      task.sender task.additional
    rw [hfinish]
    refine ⟨fork, _, ids, hout, ⟨hgrows.wf, hgrows.nodup, hgrows.fresh, hgrows.lookup⟩, ?_⟩
    simp [getEnv, hlookup]

/-! ### Requests -/

theorem lookup_modifyBlockEnv (id' : ForkId) :
    (h.modifyBlockEnv id f).forks.lookup id' = (h.forks.lookup id').map fun fork =>
      if id' = id then { fork with opts := { fork.opts with env := fork.opts.env.mapBlockEnv f } }
      else fork := by
  unfold modifyBlockEnv
  cases hlookup : h.forks.lookup id with
  | none =>
    by_cases heq : id' = id
    · rw [heq, hlookup]
      rfl
    · simp [heq]
  | some fork =>
    rw [lookup_insert_ite]
    by_cases heq : id' = id
    · subst heq
      rw [hlookup]
      simp
    · simp [heq]

theorem counters_modifyBlockEnv :
    (h.modifyBlockEnv id f).counters = h.counters := by
  unfold modifyBlockEnv
  cases h.forks.lookup id <;> rfl

theorem Ids.modifyBlockEnv (hids : h.Ids) (id : ForkId) (f : BlockEnv → BlockEnv) :
    (h.modifyBlockEnv id f).Ids := by
  -- the same identifiers, with the same counters
  have hback : ∀ id' fork', (h.modifyBlockEnv id f).forks.lookup id' = some fork' →
      ∃ fork, h.forks.lookup id' = some fork ∧ fork.numSenders = fork'.numSenders := by
    intro id' fork' hid'
    rw [lookup_modifyBlockEnv, Option.map_eq_some_iff] at hid'
    obtain ⟨fork, hfork, rfl⟩ := hid'
    refine ⟨fork, hfork, ?_⟩
    split <;> rfl
  have hforth : ∀ id' fork, h.forks.lookup id' = some fork →
      ∃ fork', (h.modifyBlockEnv id f).forks.lookup id' = some fork' ∧
        fork'.numSenders = fork.numSenders := by
    intro id' fork hid'
    refine ⟨_, by rw [lookup_modifyBlockEnv, hid']; rfl, ?_⟩
    split <;> rfl
  refine ⟨fun id' fork' hid' => ?_, fun id' fork' hid' => ?_, fun id' fork' hid' => ?_,
    fun id' k fork' hid' => ?_⟩
  all_goals obtain ⟨fork, hfork, hsame⟩ := hback _ _ hid'
  · rw [counters_modifyBlockEnv, ← hsame]
    exact hids.inRange id' fork hfork
  · exact hids.hasAt id' fork hfork
  · obtain ⟨rootFork, hroot, hrootSame⟩ := hids.root id' fork hfork
    obtain ⟨rootFork', hroot', hrootSame'⟩ := hforth _ _ hroot
    exact ⟨rootFork', hroot', hrootSame'.trans (hrootSame.trans hsame)⟩
  · have hbelow := hids.below id' k fork hfork
    unfold counter at hbelow ⊢
    rw [counters_modifyBlockEnv, ← hsame]
    exact hbelow

theorem forks_createFork (h : MultiForkHandler) (fork : CreateFork) (sender : Sender) :
    (h.createFork fork sender).forks = h.forks ∧
      (h.createFork fork sender).counters = h.counters := by
  unfold createFork
  dsimp only
  cases joinTask (.new fork.url fork.forkBlockNumber) sender h.pendingTasks <;> exact ⟨rfl, rfl⟩

end MultiForkHandler

end BaseAnvil.Forks
