import BaseAnvil.Pool.Account
import BaseAnvil.Pool.Woken

/-!
# BaseAnvil.Pool.Served

In which order the promotions of a step are tried, and who ends up in each slot.

The queued transactions that wait for the same marker are rivals for the same slot.
They leave the queue together and stay in the order in which they left it, whatever
else is promoted in between (`Arranged`). A slot then belongs to the best offer, the
earlier one among equals (`compete`), so the outcome only depends on who was woken.
-/

namespace BaseAnvil.Pool

open ReadyTransactions PendingTransactions Event

/-! ### Rivals -/

/-- Those of `X` that wait for `q`. -/
def waitingFor (q : TxMarker) (X : List PoolTransaction) : List PoolTransaction :=
  X.filter fun x => q ∈ x.requires

variable {X : List PoolTransaction} {q : TxMarker} {x : PoolTransaction} {ord : HashOrder}
  {p : PendingTransactions}

theorem mem_waitingFor : x ∈ waitingFor q X ↔ x ∈ X ∧ q ∈ x.requires := by
  rw [waitingFor, List.mem_filter, decide_eq_true_eq]

@[simp] theorem waitingFor_append (Y : List PoolTransaction) :
    waitingFor q (X ++ Y) = waitingFor q X ++ waitingFor q Y :=
  List.filter_append X Y

/-- The rivals that wait for `q`, in the order in which they leave the queue. -/
def rivals (ord : HashOrder) (p : PendingTransactions) (q : TxMarker) : List PoolTransaction :=
  (p.unlockedBy ord q).map (·.transaction)

theorem mem_rivals (hp : PendingWf p) : x ∈ rivals ord p q ↔
      ∃ w, p.waitingQueue.lookup x.hash = some w ∧ w.transaction = x ∧ q ∈ x.requires := by
  rw [rivals, List.mem_map]
  constructor
  · intro hex
    obtain ⟨u, hu, rfl⟩ := hex
    obtain ⟨w, hw, hq, rfl⟩ := (mem_unlockedBy hp).mp hu
    exact ⟨w, hw, rfl, hq⟩
  · intro hex
    obtain ⟨w, hw, rfl, hq⟩ := hex
    exact ⟨_, (mem_unlockedBy hp).mpr ⟨w, hw, hq, rfl⟩, rfl⟩

theorem waitingFor_rivals (hp : PendingWf p) (m : TxMarker) :
    waitingFor q (rivals ord p m) = if q = m then rivals ord p m else [] := by
  split
  · rename_i heq
    refine List.filter_eq_self.mpr fun x hx => ?_
    rw [heq, decide_eq_true_eq]
    exact ((mem_rivals hp).mp hx).choose_spec.2.2
  · rename_i hne
    refine List.filter_eq_nil_iff.mpr fun x hx hq => ?_
    obtain ⟨w, hw, rfl, hm⟩ := (mem_rivals hp).mp hx
    exact hne ((hp.marked _ w hw).eq_of_mem_requires hm (of_decide_eq_true hq))

/-- The rivals only depend on the queue entries that wait for the marker. -/
theorem rivals_congr {p₀ : PendingTransactions} (hp : PendingWf p)
    (hp₀ : PendingWf p₀)
    (hsub : ∀ h w, p.waitingQueue.lookup h = some w → p₀.waitingQueue.lookup h = some w)
    (hall : ∀ h w, p₀.waitingQueue.lookup h = some w → q ∈ w.transaction.requires →
      p.waitingQueue.lookup h = some w) : rivals ord p q = rivals ord p₀ q := by
  have hwait : p.waiters q = p₀.waiters q := by
    ext h
    rw [hp.waiters, hp₀.waiters]
    constructor
    · intro hex
      obtain ⟨w, hw, hq⟩ := hex
      exact ⟨w, hsub h w hw, hq⟩
    · intro hex
      obtain ⟨w, hw, hq⟩ := hex
      exact ⟨w, hall h w hw ((hp₀.mem_missing hw).mp hq), hq⟩
  rw [rivals, rivals, unlockedBy, unlockedBy, hwait]
  refine congrArg _ (List.filterMap_congr fun h hh => ?_)
  obtain ⟨w, hw, hq⟩ := (hp₀.waiters q h).mp ((ord.hashes.mem_toList _ _).mp hh)
  rw [hw, hall h w hw ((hp₀.mem_missing hw).mp hq)]

/-! ### The order of the promotions -/

/-- The rivals for `q` have left the queue, in order. -/
structure Awake (ord : HashOrder) (p₀ : PendingTransactions) (X : List PoolTransaction)
    (p : PendingTransactions) (q : TxMarker) : Prop where
  order : waitingFor q X = rivals ord p₀ q
  left : ∀ h w, p.waitingQueue.lookup h = some w → q ∉ w.transaction.requires

/-- The rivals for `q` are all still queued. -/
structure Asleep (p₀ : PendingTransactions) (X : List PoolTransaction) (p : PendingTransactions)
    (q : TxMarker) : Prop where
  none : waitingFor q X = []
  queued : ∀ h w, p₀.waitingQueue.lookup h = some w → q ∈ w.transaction.requires →
    p.waitingQueue.lookup h = some w

/-- `X`, tried or loose, are the rivals for some markers, and the others are queued. -/
def Arranged (ord : HashOrder) (p₀ : PendingTransactions) (X : List PoolTransaction)
    (p : PendingTransactions) : Prop :=
  ∀ q, Awake ord p₀ X p q ∨ Asleep p₀ X p q

variable {p₀ : PendingTransactions} {w : PendingPoolTransaction} {m : TxMarker}

section

variable {p' : PendingTransactions} {Y : List PoolTransaction}

theorem arranged_nil : Arranged ord p [] p :=
  fun _ => Or.inr ⟨rfl, fun _ _ hw _ => hw⟩

/-- What one marker unlocks may be put anywhere: nobody else waits for it. -/
theorem Arranged.unlock (hp₀ : PendingWf p₀) (hp : PendingWf p)
    (hsub : ∀ h w, p.waitingQueue.lookup h = some w → p₀.waitingQueue.lookup h = some w)
    (ha : Arranged ord p₀ (X ++ Y) p) (hu : Unlocked p m p') :
    Arranged ord p₀ (X ++ rivals ord p m ++ Y) p' := by
  intro q
  by_cases hq : q = m
  · subst hq
    refine Or.inl ⟨?_, fun h w hw => hu.not_waiting hp hw⟩
    rcases ha q with hawake | hasleep
    · have hnil : rivals ord p q = [] := by
        refine List.eq_nil_iff_forall_not_mem.mpr fun x hx => ?_
        obtain ⟨w, hw, rfl, hqx⟩ := (mem_rivals hp).mp hx
        exact hawake.left _ w hw hqx
      rw [hnil, List.append_nil]
      exact hawake.order
    · have hnone := hasleep.none
      rw [waitingFor_append, List.append_eq_nil_iff] at hnone
      rw [waitingFor_append, waitingFor_append, hnone.1, hnone.2, waitingFor_rivals hp, if_pos rfl,
        List.nil_append, List.append_nil]
      exact rivals_congr hp hp₀ hsub hasleep.queued
  · have hkeep : waitingFor q (X ++ rivals ord p m ++ Y) = waitingFor q (X ++ Y) := by
      simp [waitingFor_rivals hp, hq]
    rcases ha q with hawake | hasleep
    · exact Or.inl ⟨hkeep.trans hawake.order, fun h w hw => hawake.left h w (hu.of_queue hw)⟩
    · refine Or.inr ⟨hkeep.trans hasleep.none, fun h w hw hqw => ?_⟩
      have hold := hasleep.queued h w hw hqw
      refine hu.stays hp hold fun hmw => hq ?_
      exact (hp.marked h w hold).eq_of_mem_requires hmw hqw

/-- Without loose transactions, what left the queue was tried. -/
theorem Arranged.mem_of_left (hp₀ : PendingWf p₀) (ha : Arranged ord p₀ X p) {h : TxHash}
    (hw : p₀.waitingQueue.lookup h = some w) (hleft : p.waitingQueue.lookup h ≠ some w) :
    w.transaction ∈ X := by
  obtain ⟨q, hq⟩ := hp₀.exists_requires hw
  rcases ha q with hawake | hasleep
  · have hmem : w.transaction ∈ rivals ord p₀ q :=
      (mem_rivals hp₀).mpr ⟨w, hp₀.lookup_hash hw, rfl, hq⟩
    rw [← hawake.order] at hmem
    exact (mem_waitingFor.mp hmem).1
  · exact absurd (hasleep.queued h w hw hq) hleft

end

/-! ### Who gets a slot -/

/-- The holder of a slot after `x` tried for it. -/
def compete (holder : Option PoolTransaction) (x : PoolTransaction) : Option PoolTransaction :=
  match holder with
  | none => some x
  | some o => if o.maxFeePerGas < x.maxFeePerGas then some x else some o

/-- The transaction that provides `m`. -/
def ReadyTransactions.holder (r : ReadyTransactions) (m : TxMarker) : Option PoolTransaction :=
  (r.provider m).map (·.tx)

theorem holder_eq_some {r : ReadyTransactions} (hr : ReadyCore r) :
    r.holder m = some x ↔ (∃ t, r.readyTx.lookup x.hash = some t ∧ t.tx = x) ∧ x.slot = m := by
  rw [holder, Option.map_eq_some_iff]
  constructor
  · intro hex
    obtain ⟨t, ht, rfl⟩ := hex
    obtain ⟨hlook, hslot⟩ := hr.provider_eq_some.mp ht
    exact ⟨⟨t, hlook, rfl⟩, hslot⟩
  · intro hand
    obtain ⟨⟨t, hlook, rfl⟩, hslot⟩ := hand
    exact ⟨t, hr.provider_eq_some.mpr ⟨hlook, hslot⟩, rfl⟩

theorem Inserted.holder {r r' : ReadyTransactions} {tx : PoolTransaction} (hr : ReadyCore r)
    (hi : Inserted r tx r') (m : TxMarker) :
    r'.holder m = if m = tx.slot then some tx else r.holder m := by
  rw [ReadyTransactions.holder, ReadyTransactions.holder, provider, provider, hi.provided]
  split
  · rw [Option.bind_some, hi.new]
    rfl
  · rename_i hne
    cases hlook : r.providedMarkers.lookup m with
    | none => rfl
    | some h =>
      obtain ⟨t, ht, hslot⟩ := (hr.provided m h).mp hlook
      obtain ⟨t₁, ht₁, hown⟩ := hi.kept h t ht (by rw [hslot]; exact hne)
      rw [Option.bind_some, Option.bind_some, ht, ht₁, Option.map_some, Option.map_some, linkTo_tx,
        hown.tx_eq]

/-! ### The cascade -/

/-- The transaction of an attempt. -/
def Event.tx : Event → PoolTransaction
  | .entered tx _ => tx
  | .refused tx => tx

/-- The transactions tried so far, in order. -/
def tried (evs : List Event) : List PoolTransaction := evs.map (·.tx)

@[simp] theorem tried_append (evs evs' : List Event) :
    tried (evs ++ evs') = tried evs ++ tried evs' :=
  List.map_append

/-- Those of `X` that provide `m`. -/
def bidders (m : TxMarker) (X : List PoolTransaction) : List PoolTransaction :=
  X.filter fun x => x.slot = m

/-- The state of a cascade from the queue `p₀`: `ms` is what unlocked the first
transactions, `start` says who held the slots then. -/
structure Served (ord : HashOrder) (p₀ : PendingTransactions) (ms : List TxMarker)
    (start : TxMarker → Option PoolTransaction) (evs : List Event) (c : Config) : Prop
    extends Fed p₀ (Woken p₀ ms) c where
  woken : ∀ x ∈ tried evs, Woken p₀ ms x
  arranged : Arranged ord p₀ (tried evs ++ c.2.map (·.transaction)) c.1.pendingTransactions
  /-- Nothing waits for a marker that was handled or belongs to a tried transaction. -/
  closed : ∀ q, (q ∈ ms ∨ ∃ x ∈ tried evs, x.slot = q) →
    ∀ h w, c.1.pendingTransactions.waitingQueue.lookup h = some w → q ∉ w.transaction.requires
  stays : ∀ h w, p₀.waitingQueue.lookup h = some w → ¬ Woken p₀ ms w.transaction →
    c.1.pendingTransactions.waitingQueue.lookup h = some w
  holder : ∀ m, c.1.readyTransactions.holder m = (bidders m (tried evs)).foldl compete (start m)

namespace Served

variable {ms : List TxMarker} {start : TxMarker → Option PoolTransaction} {evs : List Event}
  {c c' : Config}

theorem foldl_bidders (o : Option PoolTransaction) : (bidders m (X ++ [x])).foldl compete o =
      if x.slot = m then compete ((bidders m X).foldl compete o) x
      else (bidders m X).foldl compete o := by
  rw [bidders, List.filter_append, List.foldl_append]
  split
  · rename_i heq
    rw [List.filter_cons_of_pos (by simpa using heq)]
    rfl
  · rename_i hne
    rw [List.filter_cons_of_neg (by simpa using hne)]
    rfl

variable (hp₀ : PendingWf p₀)
include hp₀

theorem step {e : Event} (hs : Served ord p₀ ms start evs c) (h : CascadeStep ord c e c') :
    Served ord p₀ ms start (evs ++ [e]) c' := by
  have hfed := hs.toFed.step wakesWithin_woken h.absorb
  have hwoken : ∀ u rest, c.2 = u :: rest → ∀ x ∈ tried evs ++ [u.transaction], Woken p₀ ms x := by
    intro u rest heq x hx
    rcases List.mem_append.mp hx with hx | hx
    · exact hs.woken x hx
    · rw [List.mem_singleton.mp hx]
      exact hs.loose u (by rw [heq]; exact List.mem_cons_self)
  cases h with
  | @enter s u L M r p hfee hins hunl =>
    have hpend := hs.inv.pool.pending
    refine ⟨hfed, by rw [tried_append]; exact hwoken u _ rfl, ?_, ?_, ?_, ?_⟩
    · have harr := Arranged.unlock (X := tried evs ++ u.transaction :: L.map (·.transaction))
        (Y := M.map (·.transaction)) hp₀ hpend hs.queue (by simpa using hs.arranged) hunl
      simpa [tried, tx, rivals] using harr
    · intro q hq h w hw
      rw [tried_append] at hq
      rcases hq with hq | ⟨x, hx, rfl⟩
      · exact hs.closed q (Or.inl hq) h w (hunl.of_queue hw)
      · rcases List.mem_append.mp hx with hx | hx
        · exact hs.closed _ (Or.inr ⟨x, hx, rfl⟩) h w (hunl.of_queue hw)
        · rw [show x = u.transaction from List.mem_singleton.mp hx]
          exact hunl.not_waiting hpend hw
    · intro h w hw hnot
      refine hunl.stays hpend (hs.stays h w hw hnot) fun hfol => hnot ?_
      exact .chain (hs.loose u List.mem_cons_self) hw hfol
    · intro m
      rw [hins.holder hs.inv.pool.ready.toReadyCore, tried_append,
        show tried [entered u.transaction _] = [u.transaction] from rfl, foldl_bidders,
        ← hs.holder]
      by_cases hm : m = u.transaction.slot
      · subst hm
        rw [if_pos rfl, if_pos rfl]
        show _ = compete ((s.readyTransactions.provider u.transaction.slot).map (·.tx)) _
        cases ho : s.readyTransactions.provider u.transaction.slot with
        | none => rfl
        | some o => simp [compete, hfee o ho]
      · rw [if_neg hm, if_neg (Ne.symm hm)]
  | @refuse s u L o ho hfee =>
    refine ⟨hfed, by rw [tried_append]; exact hwoken u _ rfl, ?_, ?_, hs.stays, ?_⟩
    · simpa [tried, tx] using hs.arranged
    · intro q hq h w hw
      rw [tried_append] at hq
      rcases hq with hq | ⟨x, hx, rfl⟩
      · exact hs.closed q (Or.inl hq) h w hw
      · rcases List.mem_append.mp hx with hx | hx
        · exact hs.closed _ (Or.inr ⟨x, hx, rfl⟩) h w hw
        · -- its slot is taken, so nothing waits for it
          rw [show x = u.transaction from List.mem_singleton.mp hx]
          obtain ⟨hlook, hslot⟩ := hs.inv.pool.ready.provider_eq_some.mp ho
          have hnone := hs.inv.pool.apart _ _
            ((hs.inv.pool.ready.provided _ _).mpr ⟨o, hlook, hslot⟩)
          exact hs.inv.pool.pending.lookup_none_iff.mp hnone h w hw
    · intro m
      rw [tried_append, show tried [refused u.transaction] = [u.transaction] from rfl,
        foldl_bidders, ← hs.holder]
      split
      · rename_i heq
        subst heq
        rw [ReadyTransactions.holder, ho]
        simp [compete, Nat.not_lt.mpr hfee]
      · rfl

theorem cascade (hs : Served ord p₀ ms start [] c) (h : Cascade ord c evs c') :
    Served ord p₀ ms start evs c' :=
  h.invariant (I := Served ord p₀ ms start) hs fun _ _ _ _ hi hstep => hi.step hp₀ hstep

/-- In the end all those woken were tried. -/
theorem mem_tried_iff {s : PoolInner} (hs : Served ord p₀ ms start evs (s, [])) :
    x ∈ tried evs ↔ Woken p₀ ms x := by
  refine ⟨hs.woken x, fun hx => ?_⟩
  have harr : Arranged ord p₀ (tried evs) s.pendingTransactions := by
    simpa using hs.arranged
  induction hx with
  | @direct h w m hw hreq hm =>
    exact harr.mem_of_left hp₀ hw fun hstay => hs.closed m (Or.inl hm) h w hstay hreq
  | @chain y h w _ hw hfol ih =>
    exact harr.mem_of_left hp₀ hw fun hstay => hs.closed _ (Or.inr ⟨y, ih, rfl⟩) h w hstay hfol

/-- The queue is left with those that were not woken. -/
theorem queue_iff {s : PoolInner} (hs : Served ord p₀ ms start evs (s, [])) {h : TxHash} :
    s.pendingTransactions.waitingQueue.lookup h = some w ↔
      p₀.waitingQueue.lookup h = some w ∧ ¬ Woken p₀ ms w.transaction := by
  refine ⟨fun hw => ⟨hs.queue h w hw, fun hwoken => ?_⟩, fun hand => hs.stays h w hand.1 hand.2⟩
  generalize heq : w.transaction = x at hwoken
  cases hwoken with
  | direct _ hreq hm =>
    rw [← heq] at hreq
    exact hs.closed _ (Or.inl hm) h w hw hreq
  | chain hx _ hfol =>
    rw [← heq] at hfol
    exact hs.closed _ (Or.inr ⟨_, (hs.mem_tried_iff hp₀).mpr hx, rfl⟩) h w hw hfol

end Served

end BaseAnvil.Pool
