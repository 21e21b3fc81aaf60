import BaseAnvil.Cheats.Prank

/-!
# BaseAnvil.Cheats.PrankScope

How long a prank for a single call lasts.

It should last until the next call or create at its depth has returned, and leave nothing
behind: no later sender and no later `tx.origin` is its doing, and the pranks of other depths
are as they were (`Contained`). Three things break this. A prank that is applied below its
depth first is filed under that depth, where nothing cleans it up. The end of a create drops
the pranks of every depth. And a prank that outlives the call it was started in puts an old
`tx.origin` back. `Fits` excludes them, and a delegate call made in the name of the
cheatcode address, whose end the hook mistakes for the end of a cheatcode.
-/

namespace BaseAnvil.Cheats

open Lib Finmap Entry
open Pool (Address)

/-! ### Looking pranks up -/

variable {depth : Nat} {prank : Prank}

section Lookup

variable {pranks : HashMap Nat Prank}

theorem getPrank_of_lookup (h : pranks.lookup depth = some prank) :
    getPrank pranks depth = some prank := by
  cases depth with
  | zero => exact h
  | succ depth => simp [getPrank, h]

theorem exists_lookup_of_getPrank (h : getPrank pranks depth = some prank) :
    ∃ k ≤ depth, pranks.lookup k = some prank := by
  induction depth with
  | zero => exact ⟨0, le_rfl, h⟩
  | succ depth ih =>
    cases hlook : pranks.lookup (depth + 1) with
    | none =>
      obtain ⟨k, hk, hprank⟩ := ih (by simpa [getPrank, hlook] using h)
      exact ⟨k, by omega, hprank⟩
    | some prank' =>
      refine ⟨depth + 1, le_rfl, ?_⟩
      simpa [getPrank, hlook] using h

end Lookup

variable {k n : Nat}

namespace PrankState

variable {s s' : PrankState}

/-- Every prank stands under the depth it was started at. -/
def Keyed (s : PrankState) : Prop := ∀ k prank, s.pranks.lookup k = some prank → prank.depth = k

theorem Keyed.lookup_of_depth_eq (h : s.Keyed) (hget : getPrank s.pranks depth = some prank)
    (hdepth : prank.depth = depth) : s.pranks.lookup depth = some prank := by
  obtain ⟨k, -, hlook⟩ := exists_lookup_of_getPrank hget
  rwa [← hdepth, h k prank hlook]

/-! ### What the hooks do to the pranks -/

/-- At most the prank of this depth is marked as used. -/
def Marked (s s' : PrankState) (depth : Nat) : Prop :=
  s'.started = s.started ∧ (s'.pranks = s.pranks ∨
    ∃ prank, s.pranks.lookup depth = some prank ∧
      s'.pranks = s.pranks.insert depth { prank with used := true })

theorem Marked.refl (s : PrankState) (depth : Nat) : Marked s s depth := ⟨rfl, Or.inl rfl⟩

/-- Below its depth, a prank that is about to change `tx.origin` has been applied before. -/
def AppliedAbove (depth : Nat) (prank : Prank) (caller : Address) : Prop :=
  prank.depth < depth → caller = prank.prankCaller → prank.newOrigin.isSome → prank.used

theorem markApplied_of_used (hused : prank.used) (b : Bool) : s.markApplied depth prank b = s := by
  cases b <;> simp [markApplied, Prank.firstTimeApplied, hused]

theorem marked_markApplied (hprank : s.pranks.lookup depth = some prank) (b : Bool) :
    Marked s (s.markApplied depth prank b) depth := by
  cases hused : prank.used with
  | true =>
    rw [markApplied_of_used hused]
    exact .refl s depth
  | false =>
    cases b with
    | false => exact .refl s depth
    | true =>
      refine ⟨?_, Or.inr ⟨prank, hprank, ?_⟩⟩ <;>
        simp [markApplied, Prank.firstTimeApplied, hused]

theorem marked_applyPrank (h : s.Keyed) (hget : getPrank s.pranks depth = some prank)
    (origin caller : Address) (habove : AppliedAbove depth prank caller) :
    Marked s (applyPrank { s with txCaller := origin } depth prank caller).2 depth := by
  unfold applyPrank
  split
  · rename_i happly
    rcases happly.1.lt_or_eq with hlt | heq
    · -- a prank of a smaller depth: if it is applied at all, this is not the first time
      cases horigin : prank.newOrigin.isSome with
      | true =>
        rw [markApplied_of_used (habove hlt happly.2 horigin)]
        exact .refl _ depth
      | false =>
        have hne : decide (depth = prank.depth) = false := decide_eq_false (by omega)
        rw [hne]
        exact .refl _ depth
    · exact marked_markApplied (s := { s with txCaller := prank.newOrigin.getD origin })
        (h.lookup_of_depth_eq hget heq) _
  · exact .refl _ depth

theorem marked_call (h : s.Keyed) (inputs : CallInputs) (mocked : Bool)
    (habove : ∀ prank ∈ getPrank s.pranks depth, isCheatcodeCall inputs.targetAddress = false →
      mocked = false → AppliedAbove depth prank inputs.caller) :
    Marked s (s.call depth inputs mocked).2 depth := by
  unfold call
  split
  · exact .refl s depth
  · rename_i hnot
    rw [Bool.or_eq_true, not_or, Bool.not_eq_true, Bool.not_eq_true] at hnot
    cases hget : getPrank s.pranks depth with
    | none => exact .refl s depth
    | some prank =>
      dsimp only
      split
      · rename_i hdel
        refine marked_applyPrank h hget _ _ fun hlt => ?_
        simp only [delegates, Bool.and_eq_true, beq_iff_eq] at hdel
        omega
      · exact marked_applyPrank h hget s.txCaller _ (habove prank hget hnot.1 hnot.2)

theorem marked_create (h : s.Keyed) (caller : Address)
    (habove : ∀ prank ∈ getPrank s.pranks depth, AppliedAbove depth prank caller) :
    Marked s (s.create depth caller).2 depth := by
  unfold create
  cases hget : getPrank s.pranks depth with
  | none => exact .refl s depth
  | some prank => exact marked_applyPrank h hget s.txCaller _ (habove prank hget)

/-! ### The ledger of the pranks -/

/-- At most the prank of this depth went, or is there with another `used`. -/
structure Touched (s s' : PrankState) (depth : Nat) : Prop where
  started : s'.started = s.started
  other : ∀ k, k ≠ depth → s'.pranks.lookup k = s.pranks.lookup k
  same : ∀ prank', s'.pranks.lookup depth = some prank' →
    ∃ prank, s.pranks.lookup depth = some prank ∧ prank'.serial = prank.serial ∧
      prank'.depth = prank.depth

theorem Touched.of_eq (hstarted : s'.started = s.started) (hpranks : s'.pranks = s.pranks) :
    Touched s s' depth where
  started := hstarted
  other k _ := by rw [hpranks]
  same prank' hlook := ⟨prank', hpranks ▸ hlook, rfl, rfl⟩

theorem Touched.of_none (hstarted : s'.started = s.started)
    (hother : ∀ k, k ≠ depth → s'.pranks.lookup k = s.pranks.lookup k)
    (hnone : s'.pranks.lookup depth = none) : Touched s s' depth where
  started := hstarted
  other := hother
  same prank' hlook := by
    rw [hnone] at hlook
    cases hlook

theorem Marked.touched (h : Marked s s' depth) : Touched s s' depth := by
  obtain ⟨hstarted, hsame | ⟨prank, hprank, hinsert⟩⟩ := h
  · exact .of_eq hstarted hsame
  · refine ⟨hstarted, fun k hk => ?_, fun prank' hlook => ⟨prank, hprank, ?_⟩⟩
    · rw [hinsert, lookup_insert_of_ne _ hk]
    · rw [hinsert, lookup_insert] at hlook
      cases hlook
      exact ⟨rfl, rfl⟩

/-- Each prank stands once, under its depth, and none of the finished ones does. -/
structure Ledger (s : PrankState) (finished : Finset Nat) : Prop where
  keyed : s.Keyed
  numbered : ∀ k prank, s.pranks.lookup k = some prank → prank.serial < s.started
  distinct : ∀ k k' prank prank', s.pranks.lookup k = some prank →
    s.pranks.lookup k' = some prank' → prank.serial = prank'.serial → k = k'
  finished_lt : ∀ n ∈ finished, n < s.started
  gone : ∀ k prank, s.pranks.lookup k = some prank → prank.serial ∉ finished

variable {finished : Finset Nat}

/-- What a prank was before the depth was touched. -/
theorem Touched.exists_before (h : Touched s s' depth) {prank' : Prank}
    (hlook : s'.pranks.lookup k = some prank') :
    ∃ prank, s.pranks.lookup k = some prank ∧ prank'.serial = prank.serial ∧
      prank'.depth = prank.depth := by
  by_cases hk : k = depth
  · subst hk
    exact h.same prank' hlook
  · rw [h.other k hk] at hlook
    exact ⟨prank', hlook, rfl, rfl⟩

theorem Ledger.touched (h : s.Ledger finished) (htouch : Touched s s' depth) :
    s'.Ledger finished where
  keyed k prank' hlook := by
    obtain ⟨prank, hbefore, -, hdepth⟩ := htouch.exists_before hlook
    rw [hdepth, h.keyed k prank hbefore]
  numbered k prank' hlook := by
    obtain ⟨prank, hbefore, hserial, -⟩ := htouch.exists_before hlook
    rw [hserial, htouch.started]
    exact h.numbered k prank hbefore
  distinct k₁ k₂ prank₁ prank₂ hlook₁ hlook₂ heq := by
    obtain ⟨before₁, hbefore₁, hserial₁, -⟩ := htouch.exists_before hlook₁
    obtain ⟨before₂, hbefore₂, hserial₂, -⟩ := htouch.exists_before hlook₂
    exact h.distinct k₁ k₂ before₁ before₂ hbefore₁ hbefore₂ (by rw [← hserial₁, ← hserial₂, heq])
  finished_lt n hn := htouch.started ▸ h.finished_lt n hn
  gone k prank' hlook := by
    obtain ⟨prank, hbefore, hserial, -⟩ := htouch.exists_before hlook
    rw [hserial]
    exact h.gone k prank hbefore

/-- A prank that is no longer there can be counted as finished. -/
theorem Ledger.finish (h : s.Ledger finished) (hlt : n < s.started)
    (hgone : ∀ k prank, s.pranks.lookup k = some prank → prank.serial ≠ n) :
    s.Ledger (finished ∪ {n}) where
  keyed := h.keyed
  numbered := h.numbered
  distinct := h.distinct
  finished_lt m hm := by
    rcases Finset.mem_union.mp hm with hm | hm
    · exact h.finished_lt m hm
    · rwa [Finset.mem_singleton.mp hm]
  gone k prank hlook hm := by
    rcases Finset.mem_union.mp hm with hm | hm
    · exact h.gone k prank hlook hm
    · exact hgone k prank hlook (Finset.mem_singleton.mp hm)

/-- A new prank takes the place of whatever stood at its depth. -/
theorem Ledger.insert (h : s.Ledger finished) (hserial : prank.serial = s.started)
    (hdepth : prank.depth = depth) :
    PrankState.Ledger
      { s with started := s.started + 1, pranks := s.pranks.insert depth prank } finished := by
  have hcases : ∀ k prank', (s.pranks.insert depth prank).lookup k = some prank' →
      (k = depth ∧ prank' = prank) ∨ (k ≠ depth ∧ s.pranks.lookup k = some prank') := by
    intro k prank' hlook
    rw [HashMap.lookup_insert_ite] at hlook
    split at hlook
    · rename_i hk
      cases hlook
      exact Or.inl ⟨hk, rfl⟩
    · rename_i hk
      exact Or.inr ⟨hk, hlook⟩
  refine ⟨fun k prank' hlook => ?_, fun k prank' hlook => ?_,
    fun k₁ k₂ prank₁ prank₂ hlook₁ hlook₂ heq => ?_,
    fun n hn => Nat.lt_succ_of_lt (h.finished_lt n hn), fun k prank' hlook hn => ?_⟩
  · rcases hcases k prank' hlook with ⟨rfl, rfl⟩ | ⟨-, hold⟩
    · exact hdepth
    · exact h.keyed k prank' hold
  · rcases hcases k prank' hlook with ⟨rfl, rfl⟩ | ⟨-, hold⟩
    · exact hserial ▸ Nat.lt_succ_self _
    · exact Nat.lt_succ_of_lt (h.numbered k prank' hold)
  · rcases hcases k₁ prank₁ hlook₁ with ⟨rfl, rfl⟩ | ⟨-, hold₁⟩ <;>
      rcases hcases k₂ prank₂ hlook₂ with ⟨rfl, rfl⟩ | ⟨-, hold₂⟩
    · rfl
    · have := h.numbered k₂ prank₂ hold₂
      omega
    · have := h.numbered k₁ prank₁ hold₁
      omega
    · exact h.distinct k₁ k₂ prank₁ prank₂ hold₁ hold₂ heq
  · rcases hcases k prank' hlook with ⟨rfl, rfl⟩ | ⟨-, hold⟩
    · have := h.finished_lt _ hn
      omega
    · exact h.gone k prank' hold hn

/-- A prank is started under the next number, or an error leaves everything as it is. -/
theorem prank_cases {caller newCaller : Address} {newOrigin : Option Address}
    {singleCall delegateCall : Bool} {hasCode : Except String Bool}
    (h : s.prank depth caller newCaller newOrigin singleCall delegateCall hasCode = .ok s') :
    ∃ prank, prank.serial = s.started ∧ prank.depth = depth ∧
      s' = { s with started := s.started + 1, pranks := s.pranks.insert depth prank } := by
  unfold PrankState.prank at h
  cases hasCode with
  | error e => cases h
  | ok code =>
    rw [Except.bind] at h
    split at h
    · cases h
    · cases hcheck : s.checkCurrent depth singleCall with
      | error e =>
        rw [hcheck] at h
        cases h
      | ok u =>
        rw [hcheck] at h
        cases h
        exact ⟨_, rfl, rfl, rfl⟩

/-! ### Cleaning up -/

/-- With pranks that stand under their depth, the cleanup is about the one of this depth. -/
theorem cleanUp_of_lookup (h : s.Keyed) (hlook : s.pranks.lookup depth = some prank)
    (rest : HashMap Nat Prank) :
    s.cleanUp depth rest =
      { s with
        txCaller := prank.prankOrigin
        pranks := if prank.singleCall then rest else s.pranks } := by
  unfold cleanUp
  rw [getPrank_of_lookup hlook]
  exact if_pos (h depth prank hlook).symm

theorem cleanUp_of_none (h : s.Keyed) (hlook : s.pranks.lookup depth = none)
    (rest : HashMap Nat Prank) : s.cleanUp depth rest = s := by
  unfold cleanUp
  cases hget : getPrank s.pranks depth with
  | none => rfl
  | some prank =>
    refine if_neg fun hdepth => ?_
    rw [h.lookup_of_depth_eq hget hdepth.symm] at hlook
    cases hlook

/-- The cleanup leaves the other depths alone, if what it leaves in the end does. -/
theorem touched_cleanUp (h : s.Keyed) {rest : HashMap Nat Prank}
    (hrest : ∀ prank, s.pranks.lookup depth = some prank → prank.singleCall →
      ∀ k, rest.lookup k = if k = depth then none else s.pranks.lookup k) :
    Touched s (s.cleanUp depth rest) depth := by
  cases hlook : s.pranks.lookup depth with
  | none =>
    rw [cleanUp_of_none h hlook]
    exact .of_eq rfl rfl
  | some prank =>
    rw [cleanUp_of_lookup h hlook]
    cases hsingle : prank.singleCall with
    | false => exact .of_eq rfl rfl
    | true =>
      have hrest' := hrest prank hlook hsingle
      refine .of_none rfl (fun k hk => ?_) ?_
      · exact (hrest' k).trans (if_neg hk)
      · exact (hrest' depth).trans (if_pos rfl)

end PrankState

/-! ### Frames -/

/-- The hook at its end cleans up. -/
def Entry.cleansUp : Entry → Bool
  | .call inputs => !isCheatcodeCall inputs.targetAddress
  | .create => true

/-- The prank that a frame was entered under is still there, and will be cleaned up with
`tx.origin` as it was. -/
def Frame.Holds (pranks : HashMap Nat Prank) (frame : Frame) (depth : Nat) : Prop :=
  ∀ n ∈ frame.prank, ∃ prank, pranks.lookup depth = some prank ∧ prank.serial = n ∧
    prank.singleCall = true ∧ prank.prankOrigin = frame.origin ∧ frame.entry.cleansUp = true

/-- Every frame holds its prank. -/
def Framed (pranks : HashMap Nat Prank) : List Frame → Prop
  | [] => True
  | frame :: rest => frame.Holds pranks rest.length ∧ Framed pranks rest

theorem Framed.congr {pranks pranks' : HashMap Nat Prank} {stack : List Frame}
    (h : Framed pranks stack) (hbelow : ∀ k < stack.length, pranks'.lookup k = pranks.lookup k) :
    Framed pranks' stack := by
  induction stack with
  | nil => trivial
  | cons frame rest ih =>
    refine ⟨fun n hn => ?_, ih h.2 fun k hk => hbelow k (hk.trans (Nat.lt_succ_self _))⟩
    rw [hbelow rest.length (Nat.lt_succ_self _)]
    exact h.1 n hn

namespace CallTree

open PrankState

variable {t t' : CallTree} {op : CallOp} {ops : List CallOp} {origin : Address}

/-! ### What a prank for a single call must not do, and when it does not -/

/-- If a hook changes the sender or `tx.origin`, then not for a prank that is finished. -/
def NotFinished (t : CallTree) (changed : Prop) : Prop :=
  changed → ∀ prank ∈ getPrank t.state.pranks t.depth, prank.serial ∉ t.finished

/-- A frame's end puts `tx.origin` back, if it was entered under a prank for a single call,
and leaves the pranks of other depths as they are. -/
def Contained (t : CallTree) : CallOp → Prop
  | .enterCall inputs mocked =>
    t.NotFinished ((t.state.call t.depth inputs mocked).1 ≠ inputs ∨
      (t.state.call t.depth inputs mocked).2.txCaller ≠ t.state.txCaller)
  | .enterCreate caller =>
    t.NotFinished ((t.state.create t.depth caller).1 ≠ caller ∨
      (t.state.create t.depth caller).2.txCaller ≠ t.state.txCaller)
  | .leave => ∀ frame rest t', t.stack = frame :: rest → Step t .leave t' →
      (frame.prank.isSome → t'.state.txCaller = frame.origin) ∧
        ∀ k, k ≠ rest.length → t'.state.pranks.lookup k = t.state.pranks.lookup k
  | _ => True

/-- A prank for a single call is about to have its call or create, and `tx.origin` is what it
was when the prank was started. -/
def OriginKept (t : CallTree) (prank : Prank) : Prop :=
  prank.depth = t.depth → prank.singleCall → prank.prankOrigin = t.state.txCaller

/-- Where a create ends a prank for a single call, there is no prank at another depth. -/
def Alone (s : PrankState) : List Frame → Prop
  | ⟨.create, _, _⟩ :: rest =>
    ∀ prank ∈ getPrank s.pranks rest.length, prank.depth = rest.length → prank.singleCall →
      ∀ k ∈ s.pranks.keys, k = rest.length
  | _ => True

/-- What a hook may meet. A call or create finds a prank that was started under the current
`tx.origin`, and one from further up that was applied before; a delegate call is not made in the
name of the cheatcode address; and the end of a create finds no prank of another depth. -/
def Fits (t : CallTree) : CallOp → Prop
  | .enterCall inputs mocked => isCheatcodeCall inputs.targetAddress = false →
      ∀ prank ∈ getPrank t.state.pranks t.depth, t.OriginKept prank ∧
        (mocked = false → AppliedAbove t.depth prank inputs.caller ∧
          (delegates t.depth prank inputs → isCheatcodeCall prank.newCaller = false))
  | .enterCreate caller => ∀ prank ∈ getPrank t.state.pranks t.depth,
      t.OriginKept prank ∧ AppliedAbove t.depth prank caller
  | .leave => Alone t.state t.stack
  | _ => True

instance (t : CallTree) (prank : Prank) : Decidable (t.OriginKept prank) :=
  inferInstanceAs (Decidable (_ → _ → _))

instance (depth : Nat) (prank : Prank) (caller : Address) :
    Decidable (AppliedAbove depth prank caller) :=
  inferInstanceAs (Decidable (_ → _ → _ → _))

instance (s : PrankState) (stack : List Frame) : Decidable (Alone s stack) :=
  match stack with
  | [] => isTrue trivial
  | ⟨.call _, _, _⟩ :: _ => isTrue trivial
  | ⟨.create, _, _⟩ :: rest =>
    inferInstanceAs (Decidable (∀ prank ∈ getPrank s.pranks rest.length, _ → _ →
      ∀ k ∈ s.pranks.keys, k = rest.length))

instance (t : CallTree) (op : CallOp) : Decidable (t.Fits op) :=
  match op with
  | .prank .. => isTrue trivial
  | .stopPrank => isTrue trivial
  | .enterCall _ _ =>
    inferInstanceAs (Decidable (_ → ∀ prank ∈ getPrank t.state.pranks t.depth,
      _ ∧ (_ → _ ∧ (_ → _))))
  | .enterCreate _ =>
    inferInstanceAs (Decidable (∀ prank ∈ getPrank t.state.pranks t.depth, _ ∧ _))
  | .leave => inferInstanceAs (Decidable (Alone _ _))

/-! ### The invariant of the runs that fit -/

structure Tidy (t : CallTree) : Prop where
  ledger : t.state.Ledger t.finished
  framed : Framed t.state.pranks t.stack

theorem tidy_start : (start origin).Tidy := by
  refine ⟨⟨?_, ?_, ?_, ?_, ?_⟩, trivial⟩ <;> simp [start, Keyed, lookup_empty]

theorem single_eq_some (h : t.single = some n) :
    ∃ prank, getPrank t.state.pranks t.depth = some prank ∧ prank.depth = t.depth ∧
      prank.singleCall = true ∧ prank.serial = n := by
  obtain ⟨prank, hget, hif⟩ := Option.bind_eq_some_iff.mp h
  split at hif
  · rename_i hsingle
    cases hif
    exact ⟨prank, hget, hsingle.1, hsingle.2, rfl⟩
  · cases hif

/-- Entering a frame: the hook marks at most the prank of this depth, and the frame holds it. -/
theorem Tidy.push (h : t.Tidy) {entry : Entry} {prank : Option Nat} {state : PrankState}
    (hmark : Marked t.state state t.depth)
    (hprank : ∀ n ∈ prank, t.single = some n ∧ entry.cleansUp = true)
    (horigin : prank.isSome → ∀ p ∈ getPrank t.state.pranks t.depth, t.OriginKept p) :
    (t.push entry prank state).Tidy := by
  have htouch := hmark.touched
  have hbelow : ∀ k < t.stack.length, state.pranks.lookup k = t.state.pranks.lookup k :=
    fun k hk => htouch.other k hk.ne
  refine ⟨h.ledger.touched htouch, fun n hn => ?_, h.framed.congr hbelow⟩
  obtain ⟨hsingle, hclean⟩ := hprank n hn
  obtain ⟨p, hget, hdepth, hone, hserial⟩ := single_eq_some hsingle
  have hlook := h.ledger.keyed.lookup_of_depth_eq hget hdepth
  have hkept := horigin (Option.isSome_of_mem hn) p hget hdepth hone
  obtain ⟨-, hsame | ⟨p', hp', hinsert⟩⟩ := hmark
  · exact ⟨p, hsame ▸ hlook, hserial, hone, hkept, hclean⟩
  · cases hlook.symm.trans hp'
    refine ⟨{ p with used := true }, ?_, hserial, hone, hkept, hclean⟩
    exact hinsert ▸ lookup_insert _

/-- The inputs that a call ends with are no cheatcode's, unless it was called as one. -/
theorem cleansUp_call {inputs : CallInputs} {mocked : Bool}
    (hfits : t.Fits (.enterCall inputs mocked))
    (hcall : isCheatcodeCall inputs.targetAddress = false) :
    (call (t.state.call t.depth inputs mocked).1).cleansUp = true := by
  have hself : (call inputs).cleansUp = true := by simp [cleansUp, hcall]
  unfold PrankState.call
  cases hmocked : mocked with
  | true => simpa using hself
  | false =>
    cases hget : getPrank t.state.pranks t.depth with
    | none => simpa [hcall] using hself
    | some prank =>
      have hdel := ((hfits hcall prank hget).2 hmocked).2
      cases hdelegates : delegates t.depth prank inputs with
      | true => simp [hcall, hdelegates, cleansUp, hdel hdelegates]
      | false => simp [hcall, hdelegates, cleansUp]

theorem Tidy.enterCall (h : t.Tidy) {inputs : CallInputs} {mocked : Bool}
    (hfits : t.Fits (.enterCall inputs mocked)) (hstep : Step t (.enterCall inputs mocked) t') :
    t'.Tidy := by
  cases hstep
  have hmark : Marked t.state (t.state.call t.depth inputs mocked).2 t.depth :=
    marked_call h.ledger.keyed inputs mocked
      fun prank hget hcall hmocked => ((hfits hcall prank hget).2 hmocked).1
  cases hcall : isCheatcodeCall inputs.targetAddress with
  | true => exact h.push hmark (fun n hn => by cases hn) (fun hsome => by cases hsome)
  | false =>
    exact h.push hmark (fun n hn => ⟨hn, cleansUp_call hfits hcall⟩)
      fun _ p hget => (hfits hcall p hget).1

theorem Tidy.enterCreate (h : t.Tidy) {caller : Address} (hfits : t.Fits (.enterCreate caller))
    (hstep : Step t (.enterCreate caller) t') : t'.Tidy := by
  cases hstep
  have hmark : Marked t.state (t.state.create t.depth caller).2 t.depth :=
    marked_create h.ledger.keyed caller fun prank hget => (hfits prank hget).2
  exact h.push hmark (fun n hn => ⟨hn, rfl⟩) fun _ p hget => (hfits p hget).1

section Leave

variable {frame : Frame} {rest : List Frame}

theorem touched_ended (h : t.Tidy) (hstack : t.stack = frame :: rest) (hfits : t.Fits .leave) :
    Touched t.state (ended t.state rest.length frame.entry) rest.length := by
  have hkeyed := h.ledger.keyed
  obtain ⟨entry, prank, frameOrigin⟩ := frame
  cases entry with
  | call inputs =>
    show Touched t.state (t.state.callEnd rest.length inputs) rest.length
    unfold callEnd
    split
    · exact .of_eq rfl rfl
    · exact touched_cleanUp hkeyed fun _ _ _ k => HashMap.lookup_erase_ite _ _ k
  | create =>
    refine touched_cleanUp hkeyed fun p hlook hsingle k => ?_
    have halone : Alone t.state (⟨.create, prank, frameOrigin⟩ :: rest) := hstack ▸ hfits
    rw [lookup_empty]
    split
    · rfl
    · rename_i hk
      refine (lookup_eq_none.mpr fun hmem : k ∈ t.state.pranks => hk ?_).symm
      exact halone p (getPrank_of_lookup hlook) (hkeyed _ p hlook) hsingle k
        (mem_keys.mpr hmem)

/-- The prank that the frame was entered under is cleaned up. -/
theorem ended_of_prank (h : t.Tidy) (hstack : t.stack = frame :: rest) (hn : frame.prank = some n) :
    (ended t.state rest.length frame.entry).txCaller = frame.origin ∧
      (ended t.state rest.length frame.entry).pranks.lookup rest.length = none ∧
      ∃ prank, t.state.pranks.lookup rest.length = some prank ∧ prank.serial = n := by
  have hframed : Framed t.state.pranks (frame :: rest) := hstack ▸ h.framed
  obtain ⟨prank, hlook, hserial, hsingle, horigin, hclean⟩ := hframed.1 n hn
  have hended : ∃ after, ended t.state rest.length frame.entry = t.state.cleanUp rest.length after ∧
      after.lookup rest.length = none := by
    cases hentry : frame.entry with
    | call inputs =>
      rw [hentry] at hclean
      refine ⟨t.state.pranks.erase rest.length, if_neg ?_, lookup_erase _ _⟩
      simpa [cleansUp] using hclean
    | create => exact ⟨∅, rfl, lookup_empty _⟩
  obtain ⟨after, hcleanUp, hnone⟩ := hended
  rw [hcleanUp, cleanUp_of_lookup h.ledger.keyed hlook, hsingle]
  exact ⟨horigin, hnone, prank, hlook, hserial⟩

theorem Tidy.leave (h : t.Tidy) (hfits : t.Fits .leave) (hstep : Step t .leave t') : t'.Tidy := by
  cases hstack : t.stack with
  | nil => simp [Step, exec, hstack] at hstep
  | cons frame rest =>
    have ht' : t' = ⟨ended t.state rest.length frame.entry, rest,
        t.finished ∪ frame.prank.toFinset⟩ := by
      simpa [Step, exec, hstack] using hstep.symm
    subst ht'
    have htouch := touched_ended h hstack hfits
    have hledger := h.ledger.touched htouch
    have hframed : Framed t.state.pranks (frame :: rest) := hstack ▸ h.framed
    refine ⟨?_, hframed.2.congr fun k hk => htouch.other k hk.ne⟩
    cases hprank : frame.prank with
    | none => simpa using hledger
    | some n =>
      obtain ⟨-, hnone, prank, hlook, hserial⟩ := ended_of_prank h hstack hprank
      refine hledger.finish ?_ fun k p hp hpn => ?_
      · rw [htouch.started, ← hserial]
        exact h.ledger.numbered _ prank hlook
      · -- the only prank with this number stood at the depth of the frame
        obtain ⟨before, hbefore, hsame, -⟩ := htouch.exists_before hp
        have hk : k = rest.length :=
          h.ledger.distinct _ _ before prank hbefore hlook (by rw [← hsame, hpn, hserial])
        rw [hk, hnone] at hp
        cases hp

end Leave

theorem Tidy.step (h : t.Tidy) (hfits : t.Fits op) (hstep : Step t op t') : t'.Tidy := by
  cases op with
  | prank caller newCaller newOrigin singleCall delegateCall hasCode =>
    rw [Step, exec] at hstep
    split at hstep
    · rename_i state hprank
      cases hstep
      obtain ⟨prank, hserial, hdepth, rfl⟩ := prank_cases hprank
      refine ⟨h.ledger.insert hserial hdepth, h.framed.congr fun k hk => ?_⟩
      exact lookup_insert_of_ne _ hk.ne
    · cases hstep
      exact h
  | stopPrank =>
    cases hstep
    have htouch : Touched t.state (t.state.stopPrank t.depth) t.depth :=
      .of_none rfl (fun k hk => lookup_erase_ne hk) (lookup_erase _ _)
    exact ⟨h.ledger.touched htouch, h.framed.congr fun k hk => htouch.other k hk.ne⟩
  | enterCall inputs mocked => exact h.enterCall hfits hstep
  | enterCreate caller => exact h.enterCreate hfits hstep
  | leave => exact h.leave hfits hstep

theorem tidy_of_run (h : Run (Guarded Fits Step) (start origin) ops t) : t.Tidy :=
  h.keeps tidy_start fun htidy hstep => htidy.step hstep.1 hstep.2

theorem Tidy.notFinished (h : t.Tidy) (changed : Prop) : t.NotFinished changed := by
  intro _ prank hget
  obtain ⟨k, -, hlook⟩ := exists_lookup_of_getPrank hget
  exact h.ledger.gone k prank hlook

/-- **Pranks for a single call.** In a run whose steps all fit, and at every further step that fits,
they are contained: no sender and no `tx.origin` after the call they are for is their doing. -/
theorem contained_of_run (h : Run (Guarded Fits Step) (start origin) ops t) (hfits : t.Fits op) :
    t.Contained op := by
  have htidy := tidy_of_run h
  cases op with
  | prank | stopPrank => trivial
  | enterCall inputs mocked => exact htidy.notFinished _
  | enterCreate caller => exact htidy.notFinished _
  | leave =>
    intro frame rest t' hstack hstep
    have ht' : t'.state = ended t.state rest.length frame.entry := by
      rw [Step, exec, hstack] at hstep
      cases hstep
      rfl
    rw [ht']
    refine ⟨fun hsome => ?_, (touched_ended htidy hstack hfits).other⟩
    obtain ⟨n, hn⟩ := Option.isSome_iff_exists.mp hsome
    exact (ended_of_prank htidy hstack hn).1

/-- The contract at address 2, called from the origin 1, pranks the next call as 9 with the
origin 7, and the contract at 3 that it calls then pranks the next one as 8. -/
def nested : List CallOp :=
  [.enterCall ⟨.call, 1, 2⟩ false, .prank 2 9 (some 7) true false (.ok false),
    .enterCall ⟨.call, 2, 3⟩ false, .prank 3 8 none true false (.ok false)]

/-- Both pranks have had their call, and the inner call is about to return. -/
theorem contained_of_run_nested :
    ∃ t, Run (Guarded Fits Step) (start 1) (nested ++ [.enterCall ⟨.call, 3, 4⟩ false]) t ∧
      t.Fits .leave ∧ t.stack.head?.any (·.prank.isSome) ∧ t.Contained .leave := by
  let ops : List CallOp := nested ++ [.enterCall ⟨.call, 3, 4⟩ false]
  have htest : ((ops.foldlM (fun t op => if decide (Fits t op) then exec t op else none)
      (start 1)).map fun t => decide (t.Fits .leave ∧ t.stack.head?.any (·.prank.isSome))) =
        some true := by
    decide +kernel
  obtain ⟨t, hops, hfits, hprank⟩ := exists_of_map_decide htest
  have hrun : Run (Guarded Fits Step) (start 1) ops t :=
    Run.guarded_of_foldlM (fun _ _ hop => of_decide_eq_true hop) hops
  exact ⟨t, hrun, hfits, hprank, contained_of_run hrun hfits⟩

/-! ### Runs that do not fit -/

/-- The end of the frame does not put `tx.origin` back, or changes the prank of depth `k`. -/
def escapes (t : CallTree) (k : Nat) : Bool :=
  match t.stack, t.exec .leave with
  | frame :: rest, some t' =>
    (frame.prank.isSome && t'.state.txCaller != frame.origin) ||
      (k != rest.length && t'.state.pranks.lookup k != t.state.pranks.lookup k)
  | _, _ => false

theorem not_contained_of_escapes (h : t.escapes k = true) : ¬ t.Contained .leave := by
  unfold escapes at h
  split at h
  · rename_i frame rest t' hstack hexec
    intro hcontained
    obtain ⟨horigin, hother⟩ := hcontained frame rest t' hstack hexec
    simp only [Bool.or_eq_true, Bool.and_eq_true, bne_iff_ne] at h
    rcases h with ⟨hsome, hne⟩ | ⟨hk, hne⟩
    · exact hne (horigin hsome)
    · exact hne (hother k hk)
  · cases h

theorem exists_run_not_contained
    (h : (ops.foldlM exec (start origin)).map (escapes · k) = some true) :
    ∃ t, Run Step (start origin) ops t ∧ ¬ t.Contained .leave := by
  obtain ⟨t, hops, ht⟩ := Option.map_eq_some_iff.mp h
  exact ⟨t, Run.of_foldlM hops, not_contained_of_escapes ht⟩

/-- A delegate call keeps the sender, so the prank does not apply to it. It does to the call
that the code at 5 makes in the name of the contract, one level below, and is filed there. -/
def misfiled : List CallOp :=
  [.enterCall ⟨.call, 1, 2⟩ false, .prank 2 9 (some 7) true false (.ok false),
    .enterCall ⟨.delegateCall, 1, 2⟩ false, .enterCall ⟨.call, 2, 3⟩ false, .leave, .leave,
    .enterCall ⟨.delegateCall, 1, 2⟩ false]

/-- The contract at 3 returns without a call, and is then called again without a prank. -/
def outlived : List CallOp :=
  nested ++ [.leave, .enterCall ⟨.call, 2, 3⟩ false, .enterCall ⟨.call, 3, 4⟩ false]

/-- The same delegate call a second time has its `tx.origin` changed by the finished prank; a
create under the inner of two pranks drops the outer one; a prank that is left over from an
earlier call puts the `tx.origin` of that call back; and a delegate call in the name of the
cheatcode address is not cleaned up. -/
theorem not_contained :
    (∃ t, Run Step (start 1) misfiled t ∧ ¬ t.Contained (.enterCall ⟨.call, 2, 3⟩ false)) ∧
    (∃ t, Run Step (start 1) (nested ++ [.enterCreate 3]) t ∧ ¬ t.Contained .leave) ∧
    (∃ t, Run Step (start 1) outlived t ∧ ¬ t.Contained .leave) ∧
    (∃ t, Run Step (start 1)
      [.enterCall ⟨.call, 1, 2⟩ false, .prank 2 cheatcodeAddress (some 7) true true (.ok true),
        .enterCall ⟨.delegateCall, 1, 2⟩ false] t ∧ ¬ t.Contained .leave) := by
  refine ⟨?_, exists_run_not_contained (k := 1) (by decide +kernel),
    exists_run_not_contained (k := 0) (by decide +kernel),
    exists_run_not_contained (k := 0) (by decide +kernel)⟩
  have htest : ((misfiled.foldlM exec (start 1)).map fun t =>
      decide ((t.state.call t.depth ⟨.call, 2, 3⟩ false).2.txCaller ≠ t.state.txCaller ∧
        ∃ prank ∈ getPrank t.state.pranks t.depth, prank.serial ∈ t.finished)) = some true := by
    decide +kernel
  obtain ⟨t, hops, hchanged, prank, hget, hfinished⟩ := exists_of_map_decide htest
  exact ⟨t, Run.of_foldlM hops, fun hcontained => hcontained (Or.inr hchanged) prank hget hfinished⟩

end CallTree

end BaseAnvil.Cheats
