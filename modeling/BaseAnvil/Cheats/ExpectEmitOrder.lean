import BaseAnvil.Cheats.ExpectEmit
import BaseAnvil.Lib.Subseq

/-!
# BaseAnvil.Cheats.ExpectEmitOrder

The queue of the expected logs is a search for a subsequence.

Whatever is expected and emitted, the queue has the expectations that are still waited for in
front of those that were found, the index that is taken out is one of the former, and what was
found stays (`Parted`). If every expectation is for one log and is filled as soon as it is
declared, then those waited for are in the order in which they were declared, and each log is
compared with the first of them only: the greedy search of `Lib.Subseq`.
-/

namespace BaseAnvil.Cheats

open Lib HashMap Finmap LogCountMap
open Pool (Address B256)

variable {messages : EmitMessages} {ord : IterOrder Address}
  {queue waiting found : ExpectedEmitTracker} {l : Log}

namespace ExpectedEmitTracker

/-! ### Taking out and putting back -/

theorem removeAt_append {α : Type} (before after : List α) (a : α) :
    removeAt (before ++ a :: after) before.length = some (a, before ++ after) := by
  simp [removeAt, List.eraseIdx_append_of_length_le]

theorem insertAt_append {α : Type} (before after : List α) (a : α) :
    insertAt (before ++ after) before.length a = some (before ++ a :: after) := by
  have hinsert : (before ++ after).insertIdx before.length a = before ++ a :: after := by
    induction before with
    | nil => rfl
    | cons b before ih => simp [ih]
  simp [insertAt, hinsert]

theorem execAll_cons (op : EmitOp) :
    queue.execAll messages ord (op :: ops) =
      (queue.exec messages ord op).bind (execAll messages ord · ops) := by
  rw [execAll, List.foldlM_cons]
  rfl

theorem execAll_append (ops' : List EmitOp) :
    queue.execAll messages ord (ops ++ ops') =
      (queue.execAll messages ord ops).bind (execAll messages ord · ops') := by
  rw [execAll, List.foldlM_append]
  rfl

/-! ### Waiting in front, found at the back -/

/-- The queue has what is waited for, and behind it what was found. -/
structure Parted (queue waiting found : ExpectedEmitTracker) : Prop where
  eq : queue = waiting ++ found
  waiting : ∀ e ∈ waiting, e.1.found = false
  found : ∀ e ∈ found, e.1.found = true

namespace Parted

theorem nil : Parted [] [] [] := ⟨rfl, nofun, nofun⟩

variable (h : Parted queue waiting found)
include h

theorem findIdx? : (queue.findIdx? (·.1.found)).getD queue.length = waiting.length := by
  have hnone : waiting.findIdx? (·.1.found) = none :=
    List.findIdx?_eq_none_iff.mpr fun e he => h.waiting e he
  rw [h.eq, List.findIdx?_append, hnone]
  cases found with
  | nil => simp
  | cons e found => simp [List.findIdx?_cons, h.found e List.mem_cons_self]

theorem all_found : queue.all (·.1.found) = waiting.isEmpty := by
  rw [h.eq, List.all_append, List.all_eq_true.mpr h.found, Bool.and_true]
  cases waiting with
  | nil => rfl
  | cons e waiting => simp [h.waiting e List.mem_cons_self]

theorem filter_found : queue.filter (·.1.found) = found := by
  have hnone : waiting.filter (·.1.found) = [] :=
    List.filter_eq_nil_iff.mpr fun e he => by simp [h.waiting e he]
  rw [h.eq, List.filter_append, hnone, List.nil_append, List.filter_eq_self.mpr h.found]

/-- A new expectation comes last of those that are waited for. -/
theorem expectEmit (depth : Nat) (checks : Vector Bool 5) (address : Option Address)
    (anonymous : Bool) (count : UInt64) :
    ∃ queue', queue.expectEmit depth checks address anonymous count = some queue' ∧
      Parted queue'
        (waiting ++ [(⟨depth, none, checks, address, anonymous, false, count, none⟩, ∅)])
        found := by
  let new : ExpectedEmit × HashMap Address LogCountMap :=
    (⟨depth, none, checks, address, anonymous, false, count, none⟩, ∅)
  refine ⟨waiting ++ [new] ++ found, ?_, rfl, fun e he => ?_, h.found⟩
  · have hidx := h.findIdx?
    unfold ExpectedEmitTracker.expectEmit
    cases hfound : queue.findIdx? (·.1.found) with
    | none =>
      rw [hfound, Option.getD_none, h.eq, List.length_append] at hidx
      have hnil : found = [] := List.length_eq_zero_iff.mp (by omega)
      simp [h.eq, hnil, new]
    | some pos =>
      rw [hfound, Option.getD_some] at hidx
      rw [hidx, h.eq, List.append_assoc]
      exact insertAt_append waiting found new
  · rcases List.mem_append.mp he with he | he
    · exact h.waiting e he
    · rw [List.mem_singleton.mp he]

variable {e : ExpectedEmit × HashMap Address LogCountMap}

/-- What is taken out is waited for, and the rest is parted in the same way. -/
theorem erase {before after : ExpectedEmitTracker} (hsplit : waiting = before ++ e :: after) :
    Parted (before ++ after ++ found) (before ++ after) found :=
  ⟨rfl, fun e' he' => h.waiting e' (by rw [hsplit]; simp at he' ⊢; tauto), h.found⟩

theorem index_lt (hnot : queue.all (·.1.found) = false)
    (hleft : (!queue.any (·.1.log.isNone) &&
      queue.all fun e => e.1.found || e.1.count == 0) = false) :
    queue.indexToFillOrCheck < waiting.length := by
  have hne : waiting ≠ [] := by
    rw [h.all_found] at hnot
    simpa using hnot
  unfold indexToFillOrCheck
  split
  · rw [h.findIdx?]
    have := List.length_pos_iff.mpr hne
    omega
  · rename_i hfill
    -- there is one to check, and it has not been found
    have hexists : ∃ e ∈ waiting, (!e.1.found && e.1.count > 0) = true := by
      rw [Bool.not_eq_true] at hfill
      rw [hfill, Bool.not_false, Bool.true_and, List.all_eq_false] at hleft
      obtain ⟨e, he, hcount⟩ := hleft
      rw [Bool.or_eq_true, not_or, Bool.not_eq_true] at hcount
      refine ⟨e, ?_, ?_⟩
      · rw [h.eq] at he
        refine (List.mem_append.mp he).resolve_right fun he' => ?_
        simp [h.found e he'] at hcount
      · have hpos : 0 < e.1.count := UInt64.pos_iff_ne_zero.mpr (by simpa using hcount.2)
        simp [hcount.1, hpos]
    have hsome : (waiting.findIdx? fun e => !e.1.found && e.1.count > 0).isSome := by
      rw [List.findIdx?_isSome, List.any_eq_true]
      exact hexists
    obtain ⟨i, hi⟩ := Option.isSome_iff_exists.mp hsome
    rw [h.eq, List.findIdx?_append, hi, Option.some_or, Option.getD_some]
    exact (List.findIdx?_eq_some_iff_findIdx_eq.mp hi).1

/-- Putting back what was taken out, changed but not found. -/
theorem putBack {before after : ExpectedEmitTracker}
    {e' : ExpectedEmit × HashMap Address LogCountMap} (hsplit : waiting = before ++ e :: after)
    (he' : e'.1.found = false) :
    Parted (before ++ e' :: after ++ found) (before ++ e' :: after) found := by
  refine ⟨rfl, fun e'' he'' => ?_, h.found⟩
  have hrest := (h.erase hsplit).waiting e''
  simp only [List.mem_append, List.mem_cons] at he'' hrest
  rcases he'' with hmem | rfl | hmem
  · exact hrest (Or.inl hmem)
  · exact he'
  · exact hrest (Or.inr hmem)

/-- What is done with an expectation that was taken out keeps the queue parted. -/
theorem fillOrCheck {before after : ExpectedEmitTracker} (hsplit : waiting = before ++ e :: after) :
    ∃ queue' msg waiting' found',
      ExpectedEmitTracker.fillOrCheck messages ord l before.length e.1 e.2
        (before ++ after ++ found) = some (queue', msg) ∧
      Parted queue' waiting' found' ∧ found <+: found' := by
  have hwaiting : e.1.found = false := h.waiting e (by simp [hsplit])
  have herase := h.erase hsplit
  unfold ExpectedEmitTracker.fillOrCheck
  cases hlog : e.1.log with
  | none =>
    dsimp only
    split
    · let filled : ExpectedEmit × HashMap Address LogCountMap :=
        ({ e.1 with log := some l.data }, e.2)
      have hfilled : filled.1.found = false := hwaiting
      refine ⟨_, none, _, found, ?_, h.putBack hsplit hfilled, List.prefix_rfl⟩
      rw [List.append_assoc, insertAt_append, Option.map_some, List.append_assoc, List.cons_append]
    · exact ⟨_, _, _, found, rfl, herase, List.prefix_rfl⟩
  | some expected =>
    have hcounted : ∃ countMap, countLog e.1 e.2 l = some countMap := by
      unfold countLog new
      rw [hlog]
      split <;> exact ⟨_, rfl⟩
    obtain ⟨countMap, hcountMap⟩ := hcounted
    dsimp only
    rw [hcountMap, Option.map_some]
    let checked : ExpectedEmit × HashMap Address LogCountMap :=
      (check messages ord e.1 expected countMap l, countMap)
    cases hfound : (check messages ord e.1 expected countMap l).found with
    | true =>
      refine ⟨_, none, before ++ after, found ++ [checked], rfl, ?_, List.prefix_append _ _⟩
      refine ⟨by simp [checked], herase.waiting, fun e' he' => ?_⟩
      rcases List.mem_append.mp he' with he' | he'
      · exact h.found e' he'
      · rw [List.mem_singleton.mp he']
        exact hfound
    | false =>
      refine ⟨_, none, checked :: (before ++ after), found, rfl, ?_, List.prefix_rfl⟩
      refine ⟨rfl, fun e' he' => ?_, h.found⟩
      rcases List.mem_cons.mp he' with rfl | he'
      · exact hfound
      · exact herase.waiting e' he'

/-- A log keeps the queue parted, and what was found. -/
theorem log (l : Log) :
    ∃ queue' msg waiting' found', queue.log messages ord l = some (queue', msg) ∧
      Parted queue' waiting' found' ∧ found <+: found' := by
  have hsame : ∀ msg : Option String, ∃ queue' msg' waiting' found',
      some (queue, msg) = some (queue', msg') ∧ Parted queue' waiting' found' ∧ found <+: found' :=
    fun msg => ⟨queue, msg, waiting, found, rfl, h, List.prefix_rfl⟩
  unfold ExpectedEmitTracker.log handleExpectEmit
  split
  · exact hsame none
  · split
    · exact hsame none
    · split
      · exact hsame _
      · split
        · exact hsame none
        · rename_i hall _ hleft
          rw [Bool.not_eq_true] at hall hleft
          obtain ⟨before, e, after, hsplit, hlen⟩ := exists_split (h.index_lt hall hleft)
          have hremove : removeAt queue queue.indexToFillOrCheck =
              some (e, before ++ after ++ found) := by
            rw [← hlen, h.eq, hsplit, List.append_assoc, List.cons_append, removeAt_append,
              List.append_assoc]
          rw [hremove, Option.bind_some, ← hlen]
          exact h.fillOrCheck hsplit

theorem exec (op : EmitOp) :
    ∃ queue' waiting' found', queue.exec messages ord op = some queue' ∧
      Parted queue' waiting' found' ∧ found <+: found' := by
  cases op with
  | expectEmit depth checks address anonymous count =>
    obtain ⟨queue', hexpect, hparted⟩ := h.expectEmit depth checks address anonymous count
    exact ⟨queue', _, found, hexpect, hparted, List.prefix_rfl⟩
  | log l =>
    obtain ⟨queue', msg, waiting', found', hlog, hparted, hlead⟩ := h.log l
    refine ⟨queue', waiting', found', ?_, hparted, hlead⟩
    rw [ExpectedEmitTracker.exec, hlog, Option.map_some]

theorem execAll (ops : List EmitOp) :
    ∃ queue' waiting' found', queue.execAll messages ord ops = some queue' ∧
      Parted queue' waiting' found' ∧ found <+: found' := by
  induction ops generalizing queue waiting found with
  | nil => exact ⟨queue, waiting, found, rfl, h, List.prefix_rfl⟩
  | cons op ops ih =>
    obtain ⟨queue₁, waiting₁, found₁, hexec, hparted, hlead⟩ := h.exec op
    obtain ⟨queue', waiting', found', hrest, hparted', hlead'⟩ := ih hparted
    refine ⟨queue', waiting', found', ?_, hparted', hlead.trans hlead'⟩
    rw [execAll_cons, hexec]
    exact hrest

end Parted

/-- No sequence of cheatcodes and logs panics, and what was found stays as it is. -/
theorem exists_execAll (ops' : List EmitOp) :
    ∃ queue queue', execAll messages ord [] ops = some queue ∧
      queue.execAll messages ord ops' = some queue' ∧
      queue.filter (·.1.found) <+: queue'.filter (·.1.found) := by
  obtain ⟨queue, waiting, found, hops, hparted, -⟩ := Parted.nil.execAll ops
  obtain ⟨queue', waiting', found', hops', hparted', hlead⟩ := hparted.execAll ops'
  refine ⟨queue, queue', hops, hops', ?_⟩
  rwa [hparted.filter_found, hparted'.filter_found]

end ExpectedEmitTracker

/-! ### Expectations for one log -/

/-- An expectation for one log, with the log that it is filled with. -/
structure EmitTemplate where
  checks : Vector Bool 5
  address : Option Address
  anonymous : Bool
  template : Log

namespace EmitTemplate

/-- The log passes the checks against the template, and comes from the expected address. -/
def matchesLog (t : EmitTemplate) (l : Log) : Bool :=
  checksTopicsAndData t.checks t.template.data l.data && t.address.all (· == l.address)

/-- The template is one that the expectation can be filled with. -/
def Fillable (t : EmitTemplate) : Prop := t.anonymous = true ∨ t.template.data.topics ≠ []

/-- The expectation is declared at a depth, and filled with the next log. -/
def declare (depth : Nat) (t : EmitTemplate) : List ExpectedEmitTracker.EmitOp :=
  [.expectEmit depth t.checks t.address t.anonymous 1, .log t.template]

/-- The entry of an expectation that is filled and not found. From an address that it accepts,
nothing has been counted. -/
structure Waits (t : EmitTemplate) (e : ExpectedEmit × HashMap Address LogCountMap) : Prop where
  checks : e.1.checks = t.checks
  address : e.1.address = t.address
  log : e.1.log = some t.template.data
  count : e.1.count = 1
  found : e.1.found = false
  uncounted : ∀ a, t.address.all (· == a) → e.2.lookup a = none

end EmitTemplate

namespace ExpectedEmitTracker

variable {ts : List EmitTemplate} {t : EmitTemplate}
  {e : ExpectedEmit × HashMap Address LogCountMap}

theorem count_insert_empty {checks : Vector Bool 5} {expected log : RawLog}
    (h : checksTopicsAndData checks expected log) :
    (LogCountMap.insert ⟨checks, expected, ∅⟩ log).count log = 1 := by
  have hsum : (sumBy UInt64.toNat (Finmap.insert log 1 (∅ : HashMap RawLog UInt64))) = 1 := by
    rw [sumBy_insert_of_none (lookup_empty _)]
    rfl
  simp [LogCountMap.insert, LogCountMap.count, LogCountMap.satisfiesChecks, h,
    lookup_empty, LogCountMap.countUnchecked, hsum]

/-- A log from an address that nothing was counted for: if it passes the checks, it is counted
once, and otherwise not at all. -/
theorem countLog_of_none (hw : t.Waits e) (hnone : e.2.lookup l.address = none) :
    countLog e.1 e.2 l = some
      (if checksTopicsAndData t.checks t.template.data l.data then
        e.2.insert l.address (LogCountMap.insert ⟨t.checks, t.template.data, ∅⟩ l.data)
      else e.2) := by
  unfold countLog new
  rw [hnone, hw.log, hw.checks]
  rfl

/-- A log that matches is found at once. -/
theorem check_of_matches (hw : t.Waits e) (hm : t.matchesLog l = true) :
    ∃ countMap, countLog e.1 e.2 l = some countMap ∧
      (check messages ord e.1 t.template.data countMap l).found = true := by
  obtain ⟨hchecks, haddress⟩ := (Bool.and_eq_true _ _).mp hm
  have hcount := countLog_of_none hw (hw.uncounted l.address haddress)
  rw [if_pos hchecks] at hcount
  refine ⟨_, hcount, ?_⟩
  have hfilter : t.address.filter (· ≠ l.address) = none := by
    rw [Option.filter_eq_none_iff]
    intro a ha
    simpa [ha] using haddress
  simp only [check, hw.checks, hchecks, Bool.not_true, Bool.false_eq_true, if_false, hw.address,
    hfilter, isCounted, hw.count]
  cases ht : t.address with
  | some emitter =>
    have hemitter : emitter = l.address := by simpa [ht] using haddress
    subst hemitter
    simp [lookup_insert, count_insert_empty hchecks]
  | none =>
    -- nothing was counted for any address before
    have hempty : e.2 = ∅ := eq_empty_iff.mpr fun a => hw.uncounted a (by simp [ht])
    have hkeys : (e.2.insert l.address
        (LogCountMap.insert ⟨t.checks, t.template.data, ∅⟩ l.data)).keys = {l.address} := by
      rw [hempty]
      ext a
      simp [mem_keys, notMem_empty]
    have hsatisfies : (LogCountMap.insert ⟨t.checks, t.template.data, ∅⟩ l.data).satisfiesChecks
        l.data = true := by
      simp [LogCountMap.insert, LogCountMap.satisfiesChecks, lookup_empty, hchecks]
    simp [hkeys, lookup_insert, hsatisfies, count_insert_empty hchecks]

/-- The comparison writes down its outcome, and nothing else. -/
theorem check_eq (expectedEmit : ExpectedEmit) (expected : RawLog)
    (countMap : HashMap Address LogCountMap) (l : Log) :
    ∃ isFound error, check messages ord expectedEmit expected countMap l =
      { expectedEmit with found := isFound, mismatchError := error } := by
  unfold check
  split
  · exact ⟨_, _, rfl⟩
  · split <;> exact ⟨_, _, rfl⟩

open EmitTemplate

theorem found_check_of_not_matches (hw : t.Waits e) (hm : t.matchesLog l = false)
    (countMap : HashMap Address LogCountMap) :
    (check messages ord e.1 t.template.data countMap l).found = false := by
  rw [check, hw.checks, hw.address]
  cases hchecks : checksTopicsAndData t.checks t.template.data l.data with
  | false => rfl
  | true =>
    have haddress : t.address.all (· == l.address) = false := by
      simpa [matchesLog, hchecks] using hm
    cases ht : t.address with
    | none => simp [ht] at haddress
    | some emitter =>
      have hne : emitter ≠ l.address := by simpa [ht] using haddress
      have hfilter : (some emitter).filter (· ≠ l.address) = some emitter := by
        simp [Option.filter, hne]
      simp only [Bool.not_true, Bool.false_eq_true, if_false, hfilter]

/-- A log that does not match is not counted for an address that is accepted. -/
theorem uncounted_countLog (hw : t.Waits e) (hm : t.matchesLog l = false) :
    ∃ countMap, countLog e.1 e.2 l = some countMap ∧
      ∀ a, t.address.all (· == a) → countMap.lookup a = none := by
  cases hlook : e.2.lookup l.address with
  | none =>
    refine ⟨_, countLog_of_none hw hlook, fun a ha => ?_⟩
    split
    · rename_i hchecks
      have hne : a ≠ l.address := by
        rintro rfl
        simp [matchesLog, hchecks, ha] at hm
      rw [lookup_insert_of_ne _ hne]
      exact hw.uncounted a ha
    · exact hw.uncounted a ha
  | some logCountMap =>
    refine ⟨e.2.insert l.address (logCountMap.insert l.data), ?_, fun a ha => ?_⟩
    · rw [countLog, hlook]
    · have hne : a ≠ l.address := by
        rintro rfl
        rw [hw.uncounted _ ha] at hlook
        cases hlook
      rw [lookup_insert_of_ne _ hne]
      exact hw.uncounted a ha

theorem check_of_not_matches (hw : t.Waits e) (hm : t.matchesLog l = false) :
    ∃ countMap, countLog e.1 e.2 l = some countMap ∧
      t.Waits (check messages ord e.1 t.template.data countMap l, countMap) := by
  obtain ⟨countMap, hcount, huncounted⟩ := uncounted_countLog hw hm
  have hfound := @found_check_of_not_matches messages ord l t e hw hm countMap
  obtain ⟨isFound, error, hcheck⟩ := @check_eq messages ord e.1 t.template.data countMap l
  refine ⟨countMap, hcount, ?_⟩
  rw [hcheck] at hfound ⊢
  exact ⟨hw.checks, hw.address, hw.log, hw.count, hfound, huncounted⟩

/-! ### The search -/

/-- The queue waits for the logs of these templates, in this order. -/
structure Searches (queue : ExpectedEmitTracker) (ts : List EmitTemplate)
    (found : ExpectedEmitTracker) : Prop where
  waits : ∃ waiting, queue = waiting ++ found ∧ List.Forall₂ EmitTemplate.Waits ts waiting
  found : ∀ e ∈ found, e.1.found = true ∧ e.1.log.isSome = true

namespace Searches

theorem nil : Searches [] [] [] := ⟨⟨[], rfl, .nil⟩, nofun⟩

theorem waits_mem (h : List.Forall₂ Waits ts waiting) (he : e ∈ waiting) :
    e.1.found = false ∧ e.1.count = 1 ∧ e.1.log.isSome = true := by
  induction h with
  | nil => cases he
  | cons hw _ ih =>
    rcases List.mem_cons.mp he with rfl | he
    · exact ⟨hw.found, hw.count, by simp [hw.log]⟩
    · exact ih he

section

variable (h : Searches queue ts found)
include h

theorem all_found : (∀ e ∈ queue, e.1.found = true) ↔ ts = [] := by
  obtain ⟨waiting, rfl, hwaits⟩ := h.waits
  constructor
  · intro hall
    cases hwaits with
    | nil => rfl
    | cons hw _ =>
      have := hall _ (List.mem_append_left _ List.mem_cons_self)
      rw [hw.found] at this
      cases this
  · rintro rfl e he
    cases hwaits
    exact (h.found e he).1

/-- In a queue that searches, no log is unwanted. -/
theorem not_isUnwanted (l : Log) (he : e ∈ queue) : isUnwanted l e.1 = false := by
  obtain ⟨waiting, rfl, hwaits⟩ := h.waits
  rcases List.mem_append.mp he with he | he
  · simp [isUnwanted, (waits_mem hwaits he).2.1]
  · simp [isUnwanted, (h.found e he).1]

/-- A log is compared with the first template that is waited for. -/
theorem log (messages : EmitMessages) (ord : IterOrder Address) (l : Log) :
    ∃ queue' found', queue.log messages ord l = some (queue', none) ∧
      Searches queue' (advance matchesLog ts l) found' ∧
      queue'.length = queue.length := by
  have hunwanted : queue.any (isUnwanted l ·.1) = false :=
    List.any_eq_false.mpr fun e he => by simp [h.not_isUnwanted l he]
  obtain ⟨waiting, hqueue, hwaits⟩ := h.waits
  cases hwaits with
  | nil =>
    have hall : queue.all (·.1.found) = true :=
      List.all_eq_true.mpr fun e he => (h.found e (by simpa [hqueue] using he)).1
    refine ⟨queue, found, ?_, h, rfl⟩
    simp [ExpectedEmitTracker.log, handleExpectEmit, hall]
  | @cons t e ts waiting hw hwaits =>
    have hempty : queue.isEmpty = false := by simp [hqueue]
    have hall : queue.all (·.1.found) = false := by simp [hqueue, hw.found]
    have hfilled : queue.any (·.1.log.isNone) = false := by
      refine List.any_eq_false.mpr fun e' he' => ?_
      rw [hqueue] at he'
      rcases List.mem_append.mp he' with he' | he'
      · simp [Option.isSome_iff_ne_none.mp (waits_mem (.cons hw hwaits) he').2.2]
      · simp [Option.isSome_iff_ne_none.mp (h.found e' he').2]
    have hleft : (queue.all fun e => e.1.found || e.1.count == 0) = false := by
      simp [hqueue, hw.found, hw.count]
    have hindex : queue.indexToFillOrCheck = 0 := by
      rw [indexToFillOrCheck, hfilled, if_neg Bool.false_ne_true, hqueue, List.cons_append,
        List.findIdx?_cons]
      simp [hw.found, hw.count]
    have hremove : removeAt queue 0 = some (e, waiting ++ found) := by
      rw [hqueue, List.cons_append]
      exact removeAt_append [] (waiting ++ found) e
    have hlog : queue.log messages ord l =
        ExpectedEmitTracker.fillOrCheck messages ord l 0 e.1 e.2 (waiting ++ found) := by
      simp [ExpectedEmitTracker.log, handleExpectEmit, hempty, hall, hunwanted, hfilled, hleft,
        hindex, hremove]
    rw [hlog, ExpectedEmitTracker.fillOrCheck, hw.log, advance]
    cases hm : t.matchesLog l with
    | true =>
      obtain ⟨countMap, hcount, hfound⟩ := @check_of_matches messages ord l t e hw hm
      let checked : ExpectedEmit × HashMap Address LogCountMap :=
        (check messages ord e.1 t.template.data countMap l, countMap)
      refine ⟨waiting ++ (found ++ [checked]), found ++ [checked], ?_,
        ⟨⟨waiting, rfl, hwaits⟩, fun e' he' => ?_⟩, ?_⟩
      · simp [hcount, hfound, checked]
      · rcases List.mem_append.mp he' with he' | he'
        · exact h.found e' he'
        · obtain ⟨isFound, error, hcheck⟩ :=
            @check_eq messages ord e.1 t.template.data countMap l
          rw [List.mem_singleton.mp he']
          exact ⟨hfound, by simp [checked, hcheck, hw.log]⟩
      · simp [hqueue]
        omega
    | false =>
      obtain ⟨countMap, hcount, hw'⟩ := @check_of_not_matches messages ord l t e hw hm
      have hfound : (check messages ord e.1 t.template.data countMap l).found = false := hw'.found
      refine ⟨_, found, ?_, ⟨⟨_, rfl, .cons hw' hwaits⟩, h.found⟩, by simp [hqueue]⟩
      simp [hcount, hfound]

theorem logAll (messages : EmitMessages) (ord : IterOrder Address) (logs : List Log) :
    ∃ queue' found', queue.execAll messages ord (logs.map .log) = some queue' ∧
      Searches queue' (logs.foldl (advance matchesLog) ts) found' ∧
      queue'.length = queue.length := by
  induction logs generalizing queue ts found with
  | nil => exact ⟨queue, found, rfl, h, rfl⟩
  | cons l logs ih =>
    obtain ⟨queue₁, found₁, hlog, hsearches, hlength⟩ := h.log messages ord l
    obtain ⟨queue', found', hrest, hsearches', hlength'⟩ := ih hsearches
    refine ⟨queue', found', ?_, hsearches', hlength'.trans hlength⟩
    rw [List.map_cons, execAll_cons, ExpectedEmitTracker.exec, hlog]
    exact hrest

end

/-- An expectation that has just been declared is filled with the next log. -/
theorem log_fill (hwaits : List.Forall₂ Waits ts waiting) {new : ExpectedEmit}
    (hnew : new.log = none) (hfound : new.found = false)
    (hfill : new.anonymous = true ∨ l.data.topics ≠ []) :
    ExpectedEmitTracker.log messages ord (waiting ++ [(new, ∅)]) l =
      some (waiting ++ [({ new with log := some l.data }, ∅)], none) := by
  have hparted : Parted (waiting ++ [(new, ∅)]) (waiting ++ [(new, ∅)]) [] := by
    refine ⟨(List.append_nil _).symm, fun e he => ?_, nofun⟩
    rcases List.mem_append.mp he with he | he
    · exact (waits_mem hwaits he).1
    · rw [List.mem_singleton.mp he]
      exact hfound
  have hunwanted : (waiting ++ [(new, ∅)]).any (isUnwanted l ·.1) = false := by
    refine List.any_eq_false.mpr fun e he => ?_
    rcases List.mem_append.mp he with he | he
    · simp [isUnwanted, (waits_mem hwaits he).2.1]
    · simp [List.mem_singleton.mp he, isUnwanted, hnew]
  have hnone : (waiting ++ [(new, ∅)]).any (·.1.log.isNone) = true := by simp [hnew]
  have hindex : indexToFillOrCheck (waiting ++ [(new, ∅)]) = waiting.length := by
    rw [indexToFillOrCheck, if_pos hnone, hparted.findIdx?]
    simp
  have hfill' : (new.anonymous || !l.data.topics.isEmpty) = true := by
    rcases hfill with h | h <;> simp [h]
  have hremove := removeAt_append waiting [] (new, (∅ : HashMap Address LogCountMap))
  have hinsert := insertAt_append waiting []
    ({ new with log := some l.data }, (∅ : HashMap Address LogCountMap))
  rw [List.append_nil] at hremove hinsert
  have hempty : (waiting ++ [(new, (∅ : HashMap Address LogCountMap))]).isEmpty = false := by simp
  have hall : (waiting ++ [(new, (∅ : HashMap Address LogCountMap))]).all (·.1.found) = false := by
    simp [hfound]
  rw [ExpectedEmitTracker.log, handleExpectEmit, hempty, hall, hunwanted, hnone, hindex, hremove]
  simp only [Bool.false_eq_true, if_false, Bool.not_true, Bool.false_and, Option.bind_some,
    ExpectedEmitTracker.fillOrCheck, hnew, hfill', if_true, hinsert, Option.map_some]

/-- Declaring and filling one more. -/
theorem declare (messages : EmitMessages) (ord : IterOrder Address) (h : Searches queue ts [])
    (hfill : t.Fillable) (depth : Nat) :
    ∃ queue', queue.execAll messages ord (t.declare depth) = some queue' ∧
      Searches queue' (ts ++ [t]) [] ∧ queue'.length = queue.length + 1 := by
  obtain ⟨waiting, hqueue, hwaits⟩ := h.waits
  rw [List.append_nil] at hqueue
  subst hqueue
  have hparted : Parted queue queue [] :=
    ⟨(List.append_nil _).symm, fun e he => (waits_mem hwaits he).1, nofun⟩
  obtain ⟨queue₁, hexpect, hparted₁⟩ := hparted.expectEmit depth t.checks t.address t.anonymous 1
  have hqueue₁ := hparted₁.eq
  rw [List.append_nil] at hqueue₁
  subst hqueue₁
  let filled : ExpectedEmit :=
    ⟨depth, some t.template.data, t.checks, t.address, t.anonymous, false, 1, none⟩
  have hfilled : t.Waits (filled, ∅) := ⟨rfl, rfl, rfl, rfl, rfl, fun a _ => lookup_empty a⟩
  refine ⟨queue ++ [(filled, ∅)], ?_, ⟨⟨queue ++ [(filled, ∅)], (List.append_nil _).symm, ?_⟩,
    nofun⟩, by simp⟩
  · have hlog : ExpectedEmitTracker.log messages ord (queue ++
        [(⟨depth, none, t.checks, t.address, t.anonymous, false, 1, none⟩, ∅)]) t.template =
          some (queue ++ [(filled, ∅)], none) := log_fill hwaits rfl rfl hfill
    rw [EmitTemplate.declare, execAll_cons, ExpectedEmitTracker.exec, hexpect, Option.bind_some,
      execAll_cons, ExpectedEmitTracker.exec, hlog]
    rfl
  · exact List.rel_append hwaits (.cons hfilled .nil)

theorem declareAll (depth : Nat) (hts : ∀ t ∈ ts, t.Fillable) :
    ∃ queue, execAll messages ord [] (ts.flatMap (·.declare depth)) = some queue ∧
      Searches queue ts [] ∧ queue.length = ts.length := by
  induction ts using List.reverseRecOn with
  | nil => exact ⟨[], rfl, nil, rfl⟩
  | append_singleton ts t ih =>
    obtain ⟨queue, hqueue, hsearches, hlength⟩ := ih fun t ht => hts t (by simp [ht])
    obtain ⟨queue', hdeclare, hsearches', hlength'⟩ :=
      hsearches.declare messages ord (hts t (by simp)) depth
    refine ⟨queue', ?_, hsearches', by simp [hlength', hlength]⟩
    rw [List.flatMap_append, execAll_append, hqueue]
    simpa using hdeclare

end Searches

/-- **Expected logs.** Every list of expectations for one log, declared and filled in turn, and
every list of logs after them: nothing panics, all of them are there and are found at the end if and
only if the logs have increasing positions at which they match, and whatever was found after some of
the logs is still found at the end. -/
theorem found_iff_positions (messages : EmitMessages) (ord : IterOrder Address) (depth : Nat)
    (ts : List EmitTemplate) (hts : ∀ t ∈ ts, t.Fillable) (logs : List Log) :
    ∃ queue queue', execAll messages ord [] (ts.flatMap (·.declare depth)) = some queue ∧
      queue.execAll messages ord (logs.map .log) = some queue' ∧ queue'.length = ts.length ∧
      ((∀ e ∈ queue', e.1.found = true) ↔
        ∃ i : Fin ts.length → Fin logs.length, StrictMono i ∧
          ∀ j, (ts.get j).matchesLog (logs.get (i j)) = true) ∧
      ∀ before after, logs = before ++ after →
        ∃ queue₁, queue.execAll messages ord (before.map .log) = some queue₁ ∧
          queue₁.filter (·.1.found) <+: queue'.filter (·.1.found) := by
  obtain ⟨queue, hdeclare, hsearches, hlength⟩ := Searches.declareAll depth hts
  obtain ⟨queue', found, hlogs, hsearches', hlength'⟩ := hsearches.logAll messages ord logs
  refine ⟨queue, queue', hdeclare, hlogs, hlength'.trans hlength, ?_, ?_⟩
  · rw [hsearches'.all_found, foldl_advance_eq_nil, sublistForall₂_iff_positions]
  · rintro before after rfl
    obtain ⟨queue₁, queue₂, hbefore, hafter, hlead⟩ := exists_execAll (after.map .log)
    rw [execAll_append, hdeclare, Option.bind_some] at hbefore
    refine ⟨queue₁, hbefore, ?_⟩
    rw [List.map_append, execAll_append, hbefore, Option.bind_some, hafter] at hlogs
    cases hlogs
    exact hlead

/-- A log with one topic and no data. -/
def sampleLog (address : Address) (topic : B256) : Log := ⟨address, [topic], [], by simp⟩

/-- All checks, any address; the template comes from the test itself. -/
def sampleTemplate (topic : B256) : EmitTemplate :=
  ⟨.replicate 5 true, none, false, sampleLog 1 topic⟩

def sampleMessages : EmitMessages := ⟨fun _ _ _ _ => "log != expected log", fun _ _ => "emitter"⟩

/-- Two expectations, with another log between the two that they are found in. -/
theorem found_iff_positions_sample :
    (∀ t ∈ [sampleTemplate 7, sampleTemplate 8], t.Fillable) ∧
    ∃ queue', execAll sampleMessages (.sortedBy BitVec.toNat fun _ _ => BitVec.eq_of_toNat_eq) []
        ([sampleTemplate 7, sampleTemplate 8].flatMap (·.declare 1) ++
          [sampleLog 2 7, sampleLog 2 9, sampleLog 3 8].map .log) = some queue' ∧
      ∀ e ∈ queue', e.1.found = true := by
  have hts : ∀ t ∈ [sampleTemplate 7, sampleTemplate 8], t.Fillable := by
    simp [Fillable, sampleTemplate, sampleLog]
  obtain ⟨queue, queue', hdeclare, hlogs, -, hfound, -⟩ := found_iff_positions sampleMessages
    (.sortedBy BitVec.toNat fun _ _ => BitVec.eq_of_toNat_eq) 1 _ hts
    [sampleLog 2 7, sampleLog 2 9, sampleLog 3 8]
  refine ⟨hts, queue', ?_, hfound.mpr ⟨fun j => if j = 0 then 0 else 2, by decide, by decide⟩⟩
  rw [execAll_append, hdeclare, Option.bind_some, hlogs]

end ExpectedEmitTracker

end BaseAnvil.Cheats
