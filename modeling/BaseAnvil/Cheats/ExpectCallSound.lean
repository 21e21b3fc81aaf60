import BaseAnvil.Cheats.ExpectCall
import BaseAnvil.Lib.Assign

/-!
# BaseAnvil.Cheats.ExpectCallSound

What a test that passes says about its expected calls.

Each expectation without a count should have a call of its own that meets it, and one with a
count as many as it says. The tracker does not see to that. Of the expectations with the same
callee and calldata it keeps the value and the gas of the first one. A call that meets several
entries is counted in each. And the gas stipend is added without a check, so a large gas limit
becomes a small one. `Distinguishes` says when none of this matters.
-/

namespace BaseAnvil.Cheats

open Lib ExpectedCallData
open Pool (Address)
open Chain (U256)

variable {e e' : Expectation} {inputs : Call} {expected : ExpectedCallData} {calldata : Bytes}

namespace Expectation

/-! ### What is asked for, and what is looked at -/

def stipend (e : Expectation) : Nat := (positiveValueCostStipend e.msgValue).toNat

/-- What the expectation asks of a call. A call with a value has the stipend in its gas. -/
def Met (e : Expectation) (inputs : Call) : Prop :=
  isCheatcodeCall inputs.targetAddress = false ∧ inputs.bytecodeAddress = e.callee ∧
    e.data <+: inputs.input ∧ (∀ value ∈ e.msgValue, inputs.transferValue = some value) ∧
    (∀ gas ∈ e.gas, inputs.gasLimit.toNat = gas.toNat + e.stipend) ∧
    ∀ minGas ∈ e.minGas, minGas.toNat + e.stipend ≤ inputs.gasLimit.toNat

instance (e : Expectation) : DecidablePred e.Met :=
  fun _ => inferInstanceAs (Decidable (_ ∧ _ ∧ _ ∧ _ ∧ _ ∧ _))

/-- An entry made for the expectation would count the call. -/
def Counts (e : Expectation) (inputs : Call) : Bool := e.toData.counts e.callee e.data inputs

/-- What expectations have in common that share an entry. -/
def key (e : Expectation) : Address × Bytes := (e.callee, e.data)

/-- The gas that is asked for is not too large to have the stipend added. -/
def Fits (e : Expectation) : Prop :=
  (∀ gas ∈ e.gas, gas.toNat + e.stipend < 2 ^ 64) ∧
    ∀ minGas ∈ e.minGas, minGas.toNat + e.stipend < 2 ^ 64

theorem sees_iff :
    expected.sees calldata inputs = true ↔
      calldata <+: inputs.input ∧ (∀ value ∈ expected.value, inputs.transferValue = some value) ∧
        (∀ gas ∈ expected.gas, inputs.gasLimit = gas) ∧
        ∀ minGas ∈ expected.minGas, minGas ≤ inputs.gasLimit := by
  have hlen : calldata <+: inputs.input → calldata.length ≤ inputs.input.length :=
    List.IsPrefix.length_le
  simp only [sees, Bool.and_eq_true, decide_eq_true_eq, beq_iff_eq,
    Option.all_eq_true, ← List.prefix_iff_eq_take, Option.mem_def]
  grind

theorem counts_iff :
    e.Counts inputs = true ↔
      isCheatcodeCall inputs.targetAddress = false ∧ inputs.bytecodeAddress = e.callee ∧
        e.data <+: inputs.input ∧ (∀ value ∈ e.msgValue, inputs.transferValue = some value) ∧
        (∀ gas ∈ e.gas, inputs.gasLimit = gas + positiveValueCostStipend e.msgValue) ∧
        ∀ minGas ∈ e.minGas, minGas + positiveValueCostStipend e.msgValue ≤ inputs.gasLimit := by
  simp [Counts, counts, sees_iff, toData, and_assoc]

/-- Without overflow, what is looked at is what is asked for. -/
theorem met_iff_counts (h : e.Fits) : e.Met inputs ↔ e.Counts inputs = true := by
  have hadd : ∀ gas : UInt64, gas.toNat + e.stipend < 2 ^ 64 →
      (gas + positiveValueCostStipend e.msgValue).toNat = gas.toNat + e.stipend := by
    intro gas hgas
    rw [UInt64.toNat_add]
    exact Nat.mod_eq_of_lt hgas
  have hgas : ∀ gas ∈ e.gas, inputs.gasLimit.toNat = gas.toNat + e.stipend ↔
      inputs.gasLimit = gas + positiveValueCostStipend e.msgValue := by
    intro gas hmem
    rw [← UInt64.toNat_inj, hadd gas (h.1 gas hmem)]
  have hminGas : ∀ minGas ∈ e.minGas, minGas.toNat + e.stipend ≤ inputs.gasLimit.toNat ↔
      minGas + positiveValueCostStipend e.msgValue ≤ inputs.gasLimit := by
    intro minGas hmem
    rw [UInt64.le_iff_toNat_le, hadd minGas (h.2 minGas hmem)]
  rw [Met, counts_iff, forall₂_congr hgas, forall₂_congr hminGas]

/-- With overflow, no call has as much gas as is asked for. -/
theorem not_met_of_not_fits (h : ¬ e.Fits) : ¬ e.Met inputs := by
  intro hmet
  have hlt := inputs.gasLimit.toNat_lt
  refine h ⟨fun gas hgas => ?_, fun minGas hminGas => ?_⟩
  · have := hmet.2.2.2.2.1 gas hgas
    omega
  · have := hmet.2.2.2.2.2 minGas hminGas
    omega

/-- Nothing but the input is looked at to see whether the calldata is there. -/
theorem counts_setInput (h : e.Counts inputs = true) :
    e.Counts { inputs with input := e.data } = true := by
  rw [counts_iff] at h ⊢
  exact ⟨h.1, h.2.1, List.prefix_rfl, h.2.2.2⟩

end Expectation

namespace ExpectedCallTracker

open Expectation

variable {ord : TrackerOrder} {es : List Expectation} {calls : List Call} {k : Address × Bytes}

/-! ### Expectations without a count -/

/-- The call is counted for this callee and calldata. It is the first expectation's value and
gas that count. -/
def offers (es : List Expectation) (k : Address × Bytes) (inputs : Call) : Bool :=
  (es.find? (·.key = k)).any (·.Counts inputs)

theorem exists_find? (h : e ∈ es) :
    ∃ first ∈ es, es.find? (·.key = e.key) = some first ∧ first.key = e.key := by
  have hsome : (es.find? (·.key = e.key)).isSome := List.find?_isSome.mpr ⟨e, h, by simp⟩
  obtain ⟨first, hfirst⟩ := Option.isSome_iff_exists.mp hsome
  exact ⟨first, List.mem_of_find?_eq_some hfirst, hfirst, by simpa using List.find?_some hfirst⟩

theorem failed_of_nonCount (h : expected.callType = .nonCount) (actualCount : UInt64) :
    expected.failed actualCount = false ↔ expected.count ≤ actualCount := by
  simp [failed, h]

theorem failed_of_count (h : expected.callType = .count) (actualCount : UInt64) :
    expected.failed actualCount = false ↔ expected.count = actualCount := by
  simp [failed, h]

section

variable (hes : ∀ e ∈ es, e.count = none)
include hes

theorem entry_expectAll :
    entry (expectAll ∅ es) k.1 k.2 = (es.find? (·.key = k)).map fun first =>
      ({ first.toData with count := UInt64.ofNat (es.countP (·.key = k)) }, 0) := by
  induction es using List.reverseRecOn with
  | nil => simp [expectAll, entry, Finmap.lookup_empty]
  | append_singleton es e ih =>
    have hcount : e.count = none := hes e (by simp)
    specialize ih fun e he => hes e (List.mem_append_left _ he)
    rw [expectAll] at ih
    rw [expectAll, List.foldl_append, List.foldl_cons, List.foldl_nil, List.find?_append,
      List.countP_append, List.countP_singleton]
    by_cases hkey : e.key = k
    · subst hkey
      rw [show e.key.1 = e.callee from rfl, show e.key.2 = e.data from rfl] at ih ⊢
      cases hfirst : es.find? (·.key = e.key) with
      | none =>
        have hzero : es.countP (·.key = e.key) = 0 := by
          rw [List.countP_eq_zero]
          exact List.find?_eq_none.mp hfirst
        rw [hfirst] at ih
        rw [entry_expect_of_none ih]
        simp [hzero, toData, hcount]
      | some first =>
        rw [hfirst] at ih
        have htype : first.toData.callType = .nonCount := by
          have := hes first (List.mem_append_left _ (List.mem_of_find?_eq_some hfirst))
          simp [toData, this]
        rw [entry_expect_of_some ih]
        simp [hcount, htype, UInt64.ofNat_add]
    · have hne : ¬ (k.1 = e.callee ∧ k.2 = e.data) := by
        rintro ⟨h₁, h₂⟩
        exact hkey (Prod.ext h₁.symm h₂.symm)
      rw [entry_expect_of_ne hne, ih]
      simp [hkey]

/-- The verdict, in terms of how often each callee and calldata was asked for and counted. -/
theorem passes_iff :
    Passes ord es calls ↔ ∀ e ∈ es,
      UInt64.ofNat (es.countP (·.key = e.key)) ≤ UInt64.ofNat (calls.countP (offers es e.key)) := by
  have hentry : ∀ e ∈ es, ∃ x, entry (callAll ord (expectAll ∅ es) calls) e.callee e.data = some x ∧
      (x.1.failed x.2 = false ↔ UInt64.ofNat (es.countP (·.key = e.key)) ≤
        UInt64.ofNat (calls.countP (offers es e.key))) := by
    intro e he
    obtain ⟨first, hmem, hfirst, hkey⟩ := exists_find? he
    have hcounts : first.toData.counts e.callee e.data = offers es e.key := by
      obtain ⟨hcallee, hdata⟩ := Prod.mk.inj hkey
      funext inputs
      simp [offers, hfirst, Counts, hcallee, hdata]
    have := @entry_expectAll es e.key hes
    rw [hfirst, Option.map_some] at this
    have htype : first.toData.callType = .nonCount := by simp [toData, hes first hmem]
    refine ⟨_, (entry_callAll calls).trans (congrArg _ this), (@failed_of_nonCount
      { first.toData with count := UInt64.ofNat (es.countP (·.key = e.key)) } htype _).trans ?_⟩
    show _ ≤ 0 + UInt64.ofNat (calls.countP (first.toData.counts e.callee e.data)) ↔ _
    rw [hcounts, UInt64.zero_add]
  rw [Passes, callEnd_eq_none]
  constructor
  · intro h e he
    obtain ⟨x, hx, hiff⟩ := hentry e he
    exact hiff.mp (h _ _ x hx)
  · intro h target calldata x hx
    -- an entry is there for the expectation that made it
    obtain ⟨y, hy, -⟩ := Option.map_eq_some_iff.mp ((entry_callAll calls).symm.trans hx)
    obtain ⟨first, hfirst, -⟩ := Option.map_eq_some_iff.mp
      ((@entry_expectAll es (target, calldata) hes).symm.trans hy)
    have hmem := List.mem_of_find?_eq_some hfirst
    have hkey : first.key = (target, calldata) := by simpa using List.find?_some hfirst
    obtain ⟨x', hx', hiff⟩ := hentry first hmem
    cases hkey
    cases hx'.symm.trans hx
    exact hiff.mpr (h first hmem)

/-- What is asked for too often is not counted by accident: the counters do not wrap. -/
theorem enough_of_passes (hlen : es.length < 2 ^ 64) (h : Passes ord es calls) (he : e ∈ es) :
    es.countP (·.key = e.key) ≤ calls.countP (offers es e.key) := by
  have hle := (passes_iff hes).mp h e he
  rw [UInt64.le_iff_toNat_le, UInt64.toNat_ofNat', UInt64.toNat_ofNat',
    Nat.mod_eq_of_lt (List.countP_le_length.trans_lt hlen)] at hle
  exact hle.trans (Nat.mod_le _ _)

theorem passes_of_enough (hcalls : calls.length < 2 ^ 64)
    (h : ∀ e ∈ es, es.countP (·.key = e.key) ≤ calls.countP (offers es e.key)) :
    Passes ord es calls := by
  refine (passes_iff hes).mpr fun e he => ?_
  rw [UInt64.le_iff_toNat_le, UInt64.toNat_ofNat', UInt64.toNat_ofNat',
    Nat.mod_eq_of_lt (List.countP_le_length.trans_lt hcalls)]
  exact (Nat.mod_le _ _).trans (h e he)

end

/-! ### When the expectations do not get in each other's way -/

/-- Either one of them can never be met. Or whatever is counted for an expectation meets it,
and no call is counted for two callees and calldatas. -/
def Distinguishes (es : List Expectation) : Prop :=
  (∃ e ∈ es, ∀ inputs, offers es e.key inputs = false) ∨
    ((∀ e ∈ es, ∀ inputs, offers es e.key inputs → e.Met inputs) ∧
      ∀ e ∈ es, ∀ e' ∈ es, ∀ inputs, offers es e.key inputs → offers es e'.key inputs →
        e.key = e'.key)

/-- In particular: expectations for the same callee and calldata are the same, and otherwise no
calldata of a callee begins with another one. -/
theorem distinguishes_of_prefixFree (hfits : ∀ e ∈ es, e.Fits)
    (hsame : ∀ e ∈ es, ∀ e' ∈ es, e.key = e'.key → e = e')
    (hfree : ∀ e ∈ es, ∀ e' ∈ es, e.callee = e'.callee → e.data <+: e'.data → e.data = e'.data) :
    Distinguishes es := by
  have hcounts : ∀ e ∈ es, ∀ inputs, offers es e.key inputs → e.Counts inputs := by
    intro e he inputs hoffer
    obtain ⟨first, hmem, hfirst, hkey⟩ := exists_find? he
    cases hsame first hmem e he hkey
    simpa [offers, hfirst] using hoffer
  refine Or.inr ⟨fun e he inputs hoffer => ?_, fun e he e' he' inputs hoffer hoffer' => ?_⟩
  · exact (met_iff_counts (hfits e he)).mpr (hcounts e he inputs hoffer)
  · obtain ⟨-, hcallee, hdata, -⟩ := counts_iff.mp (hcounts e he inputs hoffer)
    obtain ⟨-, hcallee', hdata', -⟩ := counts_iff.mp (hcounts e' he' inputs hoffer')
    have heq : e.callee = e'.callee := hcallee.symm.trans hcallee'
    refine Prod.ext heq ?_
    rcases List.prefix_or_prefix_of_prefix hdata hdata' with h | h
    · exact hfree e he e' he' heq h
    · exact (hfree e' he' e he heq.symm h).symm

theorem assigns_of_distinguishes (hes : ∀ e ∈ es, e.count = none) (hlen : es.length < 2 ^ 64)
    (hdist : Distinguishes es) (h : Passes ord es calls) : Assigns Met es calls := by
  rcases hdist with ⟨e, he, hnever⟩ | ⟨hmet, hapart⟩
  · -- an expectation that is never met fails the test
    have hle := enough_of_passes hes hlen h he
    have hzero : calls.countP (offers es e.key) = 0 :=
      List.countP_eq_zero.mpr fun inputs _ => by simp [hnever inputs]
    have hpos : 0 < es.countP (·.key = e.key) := List.countP_pos_iff.mpr ⟨e, he, by simp⟩
    omega
  · have hassign : Assigns (fun e inputs => offers es e.key inputs = true) es calls :=
      .of_classes hapart fun e he => enough_of_passes hes hlen h he
    exact hassign.mono hmet

/-- A call that is counted for the key, with nothing after the calldata. -/
theorem offers_setInput (he : e ∈ es) (h : offers es e.key inputs) :
    offers es e.key { inputs with input := e.data } ∧ inputs.bytecodeAddress = e.callee ∧
      e.data <+: inputs.input := by
  obtain ⟨first, -, hfirst, hkey⟩ := exists_find? he
  obtain ⟨hcallee, hdata⟩ := Prod.mk.inj hkey
  simp only [offers, hfirst, Option.any_some] at h ⊢
  rw [← hdata, ← hcallee]
  have hcounts := counts_iff.mp h
  exact ⟨counts_setInput h, hcounts.2.1, hcounts.2.2.1⟩

variable {pick : Expectation → Call}

/-- A call of its own for each expectation, so the test passes. -/
theorem enough_of_own_calls {own : List Expectation}
    (hpick : ∀ e' ∈ own, e'.key = k → offers es k (pick e')) :
    own.countP (·.key = k) ≤ (own.map pick).countP (offers es k) := by
  rw [List.countP_map]
  refine List.countP_mono_left fun e' he' hkey => ?_
  exact hpick e' he' (of_decide_eq_true hkey)

/-- Let every expectation have a call with exactly its calldata. Those with a longer calldata
than `e` need all calls with a longer input, so `e` needs one with its own. -/
theorem not_assigns_of_own_calls {own : Expectation → Call}
    (hown : ∀ f ∈ es, (own f).bytecodeAddress = f.callee ∧ (own f).input = f.data) (he : e ∈ es)
    (hbad : ∀ f ∈ es, f.key = e.key → ¬ e.Met (own f)) : ¬ Assigns Met es (es.map own) := by
  intro hassign
  let longer (f : Expectation) : Bool :=
    f.callee = e.callee ∧ e.data <+: f.data ∧ e.data ≠ f.data
  let longerInput (c : Call) : Bool :=
    c.bytecodeAddress = e.callee ∧ e.data <+: c.input ∧ e.data ≠ c.input
  have hsame : (es.map own).countP longerInput = es.countP longer := by
    rw [List.countP_map]
    refine List.countP_congr fun f hf => ?_
    simp only [Function.comp, longerInput, longer, (hown f hf).1, (hown f hf).2]
  have hmore : es.countP longer < es.countP fun f => longer f || decide (f = e) :=
    countP_lt_countP (fun f _ hf => by simp [hf]) he (by simp [longer]) (by simp)
  have hle : es.countP (fun f => longer f || decide (f = e)) ≤ (es.map own).countP longerInput := by
    refine hassign.countP_le fun f hf c hc hmet hlonger => ?_
    have haddress : c.bytecodeAddress = f.callee := hmet.2.1
    have hinput : f.data <+: c.input := hmet.2.2.1
    rw [Bool.or_eq_true] at hlonger
    rcases hlonger with hlonger | hself
    · obtain ⟨hf₁, hf₂, hf₃⟩ := of_decide_eq_true hlonger
      refine decide_eq_true ⟨haddress.trans hf₁, hf₂.trans hinput, fun heq => ?_⟩
      exact hf₃ (hf₂.eq_of_length_le (heq ▸ hinput).length_le)
    · cases of_decide_eq_true hself
      refine decide_eq_true ⟨haddress, hinput, fun heq => ?_⟩
      obtain ⟨g, hg, rfl⟩ := List.mem_map.mp hc
      refine hbad g hg (Prod.ext ?_ ?_) hmet
      · exact (hown g hg).1.symm.trans haddress
      · exact (hown g hg).2.symm.trans heq.symm
  omega

section

variable (hes : ∀ e ∈ es, e.count = none) (hlen : es.length < 2 ^ 64)
  (hsound : ∀ calls, Passes ord es calls → Assigns Met es calls)
include hes hlen hsound

/-- Whatever is counted for an expectation meets it. Otherwise make that call, with exactly the
calldata, for all expectations of this key. -/
theorem met_of_sound
    (hpick : ∀ e ∈ es, offers es e.key (pick e) ∧ (pick e).bytecodeAddress = e.callee ∧
      (pick e).input = e.data)
    (he : e ∈ es) (hoffer : offers es e.key inputs) : e.Met inputs := by
  by_contra hnot
  obtain ⟨hexact, hcallee, hlead⟩ := offers_setInput he hoffer
  let bad : Call := { inputs with input := e.data }
  have hbad : ¬ e.Met bad := fun hmet => hnot ⟨hmet.1, hmet.2.1, hlead, hmet.2.2.2⟩
  let own (f : Expectation) : Call := if f.key = e.key then bad else pick f
  have hself : ∀ f, f.key = e.key → own f = bad := fun f hkey => if_pos hkey
  have hown : ∀ f ∈ es, offers es f.key (own f) ∧ (own f).bytecodeAddress = f.callee ∧
      (own f).input = f.data := by
    intro f hf
    by_cases hkey : f.key = e.key
    · rw [hself f hkey, hkey]
      exact ⟨hexact, hcallee.trans (congrArg Prod.fst hkey).symm, (congrArg Prod.snd hkey).symm⟩
    · rw [show own f = pick f from if_neg hkey]
      exact hpick f hf
  have hpasses : Passes ord es (es.map own) := by
    refine passes_of_enough hes (by rwa [List.length_map]) fun f _ => ?_
    refine enough_of_own_calls fun g hg hkey => ?_
    rw [← hkey]
    exact (hown g hg).1
  refine not_assigns_of_own_calls (fun f hf => (hown f hf).2) he (fun f _ hkey => ?_)
    (hsound _ hpasses)
  rwa [hself f hkey]

/-- No call is counted twice. Otherwise use it for the expectations of both keys. -/
theorem apart_of_sound (hpick : ∀ e ∈ es, offers es e.key (pick e)) (he' : e' ∈ es)
    (hoffer : offers es e.key inputs) (hoffer' : offers es e'.key inputs)
    (hle : es.countP (·.key = e'.key) ≤ es.countP (·.key = e.key)) : e.key = e'.key := by
  by_contra hne
  let calls := (es.filter (·.key ≠ e'.key)).map fun f => if f.key = e.key then inputs else pick f
  have hlt : calls.length < es.length := by
    rw [List.length_map, List.length_filter_lt_length_iff_exists]
    exact ⟨e', he', by simp⟩
  have hkept : ∀ k, k ≠ e'.key →
      (es.filter (·.key ≠ e'.key)).countP (·.key = k) = es.countP (·.key = k) := by
    intro k hk
    rw [List.countP_filter]
    refine List.countP_congr fun f _ => ?_
    grind
  have hpasses : Passes ord es calls := by
    refine passes_of_enough hes (hlt.trans hlen) fun f hf => ?_
    by_cases hkey : f.key = e'.key
    · calc es.countP (·.key = f.key)
          = es.countP (·.key = e'.key) := by rw [hkey]
        _ ≤ es.countP (·.key = e.key) := hle
        _ = (es.filter (·.key ≠ e'.key)).countP (·.key = e.key) := (hkept _ hne).symm
        _ ≤ calls.countP (offers es f.key) := by
            rw [List.countP_map]
            refine List.countP_mono_left fun g _ hg => ?_
            rw [Function.comp, if_pos (of_decide_eq_true hg), hkey]
            exact hoffer'
    · rw [← hkept f.key hkey]
      refine enough_of_own_calls fun g hg hgkey => ?_
      split
      · rename_i hgk
        rw [← hgkey, hgk]
        exact hoffer
      · rw [← hgkey]
        exact hpick g (List.mem_of_mem_filter hg)
  have := (hsound calls hpasses).length_le
  omega

theorem distinguishes_of_sound : Distinguishes es := by
  refine or_iff_not_imp_left.mpr fun hmeetable => ?_
  have hsome : ∀ e ∈ es, ∃ inputs, offers es e.key inputs ∧ inputs.bytecodeAddress = e.callee ∧
      inputs.input = e.data := by
    intro e he
    by_contra hnone
    refine hmeetable ⟨e, he, fun inputs => ?_⟩
    cases hoffer : offers es e.key inputs with
    | false => rfl
    | true =>
      obtain ⟨hexact, hcallee, -⟩ := offers_setInput he hoffer
      exact absurd ⟨{ inputs with input := e.data }, hexact, hcallee, rfl⟩ hnone
  obtain ⟨pick, hpick⟩ : ∃ pick : Expectation → Call, ∀ e ∈ es, offers es e.key (pick e) ∧
      (pick e).bytecodeAddress = e.callee ∧ (pick e).input = e.data := by
    have : Nonempty Call := ⟨⟨0, 0, [], none, 0⟩⟩
    choose! pick hpick using hsome
    exact ⟨pick, hpick⟩
  refine ⟨fun e he inputs => met_of_sound hes hlen hsound hpick he,
    fun e he e' he' inputs hoffer hoffer' => ?_⟩
  -- the call is made for the key that is asked for more often
  rcases le_total (es.countP (·.key = e'.key)) (es.countP (·.key = e.key)) with hle | hle
  · exact apart_of_sound hes hlen hsound (fun e he => (hpick e he).1) he' hoffer hoffer' hle
  · exact (apart_of_sound hes hlen hsound (fun e he => (hpick e he).1) he hoffer' hoffer hle).symm

end

/-! ### Expectations with a count -/

/-- An entry with a count stays as it was made. -/
theorem entry_expectAll_of_count {tracker : ExpectedCallTracker} {target : Address}
    {x : ExpectedCallData × UInt64} (h : entry tracker target calldata = some x)
    (htype : x.1.callType = .count) : entry (expectAll tracker es) target calldata = some x := by
  induction es generalizing tracker with
  | nil => exact h
  | cons e es ih =>
    refine ih ?_
    by_cases hkey : target = e.callee ∧ calldata = e.data
    · obtain ⟨rfl, rfl⟩ := hkey
      rw [entry_expect_of_some h, htype]
      simp
    · rwa [entry_expect_of_ne hkey]

/-- The expectation is accepted: nothing has been expected of this callee and calldata. -/
def Accepted (before : List Expectation) (e : Expectation) : Prop :=
  ((expectAll ∅ before).expect e).1 = .ok ()

variable {n : UInt64} {before : List Expectation}

theorem entry_of_accepted (hcount : e.count = some n) (h : Accepted before e) :
    entry (expectAll ∅ before) e.callee e.data = none := by
  cases hentry : entry (expectAll ∅ before) e.callee e.data with
  | none => rfl
  | some x =>
    rw [← lookup_getD_empty] at hentry
    simp [Accepted, expect, expectCall, hcount, hentry] at h

variable {after : List Expectation}

/-- In a test that passes, the entry has counted as many calls as it was to. -/
theorem countP_counts_of_passes (hcount : e.count = some n) (haccepted : Accepted before e)
    (hcalls : calls.length < 2 ^ 64) (h : Passes ord (before ++ e :: after) calls) :
    calls.countP e.Counts = n.toNat := by
  have hentry : entry (expectAll ∅ (before ++ e :: after)) e.callee e.data =
      some (e.toData, 0) := by
    rw [expectAll, List.foldl_append, List.foldl_cons]
    refine entry_expectAll_of_count (entry_expect_of_none (entry_of_accepted hcount haccepted)) ?_
    simp [toData, hcount]
  have hpass : e.toData.failed (0 + UInt64.ofNat (calls.countP e.Counts)) = false :=
    callEnd_eq_none.mp h e.callee e.data _ ((entry_callAll calls).trans (congrArg _ hentry))
  rw [failed_of_count (by simp [toData, hcount]), UInt64.zero_add] at hpass
  have heq : n = UInt64.ofNat (calls.countP e.Counts) := by
    rw [← hpass, toData, hcount, Option.getD_some]
  rw [heq, UInt64.toNat_ofNat', Nat.mod_eq_of_lt (List.countP_le_length.trans_lt hcalls)]

/-- If the gas fits, the calls that were counted are those that meet the expectation. If it does
not, no call meets it. -/
theorem countP_met_iff (hcount : e.count = some n) (haccepted : Accepted before e)
    (hcalls : calls.length < 2 ^ 64) (h : Passes ord (before ++ e :: after) calls) :
    calls.countP e.Met = n.toNat ↔ e.Fits ∨ n = 0 := by
  by_cases hfits : e.Fits
  · refine iff_of_true ?_ (Or.inl hfits)
    rw [← countP_counts_of_passes hcount haccepted hcalls h]
    exact List.countP_congr fun inputs _ => by simpa using met_iff_counts hfits
  · have hzero : calls.countP e.Met = 0 :=
      List.countP_eq_zero.mpr fun inputs _ => by simpa using not_met_of_not_fits hfits
    rw [hzero, or_iff_right hfits, ← UInt64.toNat_inj]
    exact eq_comm

/-- **Passing tests and expected calls.** Every passing test gives each expectation without a
count a call of its own that meets it, if and only if the expectations are told apart. In a
passing test, the calls that meet an expectation with a count are as many as it says, if and only
if its gas leaves room for the stipend or it expects none. -/
theorem sound_iff_distinguishes (ord : TrackerOrder) :
    (∀ es : List Expectation, (∀ e ∈ es, e.count = none) → es.length < 2 ^ 64 →
      ((∀ calls, Passes ord es calls → Assigns Met es calls) ↔ Distinguishes es)) ∧
    ∀ (before after : List Expectation) (e : Expectation) (n : UInt64) (calls : List Call),
      e.count = some n → Accepted before e → calls.length < 2 ^ 64 →
      Passes ord (before ++ e :: after) calls →
      (calls.countP e.Met = n.toNat ↔ e.Fits ∨ n = 0) := by
  refine ⟨fun es hes hlen => ⟨fun hsound => ?_, fun hdist calls h => ?_⟩,
    fun before after e n calls hcount haccepted => countP_met_iff hcount haccepted⟩
  · exact distinguishes_of_sound hes hlen hsound
  · exact assigns_of_distinguishes hes hlen hdist h

/-! ### Expectations that are told apart, and some that are not -/

/-- Addresses can be ordered by their values. -/
theorem address_toNat_injective : Function.Injective (BitVec.toNat : Address → Nat) :=
  fun _ _ => BitVec.eq_of_toNat_eq

def sampleOrder : TrackerOrder where
  addresses := .sortedBy BitVec.toNat address_toNat_injective
  calldatas := .sortedBy (fun data => data.map UInt8.toNat) map_toNat_injective

/-- Two calldatas, neither of which begins with the other; the first is expected twice. -/
def sampleExpectations : List Expectation :=
  [⟨1, [0xaa], none, none, none, none⟩, ⟨1, [0xbb], some 5, none, some 100, none⟩,
    ⟨1, [0xaa], none, none, none, none⟩]

/-- Calls that satisfy all of the expectations, and are made twice with another calldata. -/
def sampleCalls : List Call :=
  [⟨1, 1, [0xcc], none, 5000⟩, ⟨1, 1, [0xaa, 0x01], none, 5000⟩, ⟨1, 1, [0xbb], some 5, 5000⟩,
    ⟨1, 1, [0xcc, 0x02], none, 5000⟩, ⟨1, 1, [0xaa], none, 5000⟩]

/-- The expectations, and after them one for two calls with another calldata. -/
theorem sound_iff_distinguishes_sample :
    (Passes sampleOrder sampleExpectations sampleCalls ∧
      Assigns Met sampleExpectations sampleCalls) ∧
    Passes sampleOrder (sampleExpectations ++ [⟨1, [0xcc], none, none, none, some 2⟩])
        sampleCalls ∧
      sampleCalls.countP (Met ⟨1, [0xcc], none, none, none, some 2⟩) = 2 := by
  have hpasses : Passes sampleOrder sampleExpectations sampleCalls := by decide +kernel
  have hpasses' : Passes sampleOrder
      (sampleExpectations ++ [⟨1, [0xcc], none, none, none, some 2⟩]) sampleCalls := by
    decide +kernel
  refine ⟨⟨hpasses, ?_⟩, hpasses', ?_⟩
  · refine ((sound_iff_distinguishes sampleOrder).1 sampleExpectations (by decide)
      (by decide)).mpr (distinguishes_of_prefixFree ?_ (by decide) (by decide)) _ hpasses
    simp [sampleExpectations, Fits, stipend, positiveValueCostStipend]
  · exact ((sound_iff_distinguishes sampleOrder).2 sampleExpectations []
      ⟨1, [0xcc], none, none, none, some 2⟩ 2 sampleCalls rfl rfl (by decide) hpasses').mpr
      (Or.inl (by simp [Fits]))

/-- The call with a value to the contract at 1. -/
def sampleCall (input : Bytes) (value : U256) : Call := ⟨1, 1, input, some value, 5000⟩

/-- All the gas there can be is the least that is expected. -/
def allGas (count : Option UInt64) : Expectation :=
  ⟨1, [0xaa], some 5, none, some 0xffffffffffffffff, count⟩

theorem not_met_allGas (count : Option UInt64) : ¬ (allGas count).Met inputs := by
  refine not_met_of_not_fits fun hfits => ?_
  have hlt := hfits.2 0xffffffffffffffff rfl
  have hstipend : (allGas count).stipend = 2300 := rfl
  rw [hstipend] at hlt
  simp at hlt

/-- Two calls with the value 5 pass for one with 5 and one with 7; one call passes for two
calldatas that begin alike; and with the stipend, a minimum of all the gas there can be is a
minimum of next to none, for an expectation without a count and with one. -/
theorem not_sound :
    (let es : List Expectation :=
        [⟨1, [0xaa], some 5, none, none, none⟩, ⟨1, [0xaa], some 7, none, none, none⟩]
      let calls := [sampleCall [0xaa] 5, sampleCall [0xaa] 5]
      Passes sampleOrder es calls ∧ ¬ Assigns Met es calls) ∧
    (let es : List Expectation :=
        [⟨1, [0xaa], none, none, none, none⟩, ⟨1, [0xaa, 0xbb], none, none, none, none⟩]
      let calls := [sampleCall [0xaa, 0xbb] 5]
      Passes sampleOrder es calls ∧ ¬ Assigns Met es calls) ∧
    (Passes sampleOrder [allGas none] [sampleCall [0xaa] 5] ∧
      ¬ Assigns Met [allGas none] [sampleCall [0xaa] 5]) ∧
    (Passes sampleOrder [allGas (some 1)] [sampleCall [0xaa] 5] ∧
      [sampleCall [0xaa] 5].countP (allGas (some 1)).Met ≠ 1) := by
  refine ⟨⟨by decide +kernel, fun h => ?_⟩, ⟨by decide +kernel, fun h => ?_⟩,
    ⟨by decide +kernel, fun h => ?_⟩, by decide +kernel, ?_⟩
  · obtain ⟨c, hc, hmet⟩ := h.exists_rel (List.mem_cons_of_mem _ List.mem_cons_self)
    have hvalue : c.transferValue = some 7 := hmet.2.2.2.1 7 rfl
    have hc : c = sampleCall [0xaa] 5 := by simpa using hc
    rw [hc] at hvalue
    simp [sampleCall] at hvalue
  · exact absurd h.length_le (by decide)
  · obtain ⟨c, -, hmet⟩ := h.exists_rel List.mem_cons_self
    exact not_met_allGas none hmet
  · simp [not_met_allGas]

end ExpectedCallTracker

end BaseAnvil.Cheats
