import BaseAnvil.Pool.Transaction

/-!
# BaseAnvil.Cast.Logs

Queries for logs that fall back to chunks of blocks (`Cast::get_logs_chunked` of `cast/src/lib.rs`).

The query for the whole range comes first. If the provider refuses it, the range is cut into chunks,
which are queried concurrently, and a chunk that is refused is queried block by block.

The fallback cuts the range as if it did not include its last block (`unobtained_last`), and it
leaves out each block whose logs it cannot get. So its answer is right only if it is not needed:
`exactLogs_iff_answers` says that the query for the whole range has to succeed.
-/

namespace BaseAnvil.Cast

open Pool (B256)

/-! ### Filters and providers -/

inductive BlockNumberOrTag
  | latest
  | finalized
  | safe
  | earliest
  | pending
  /-- A `u64`. -/
  | number (n : Nat)
deriving DecidableEq

def BlockNumberOrTag.asNumber : BlockNumberOrTag → Option Nat
  | .number n => some n
  | _ => none

inductive FilterBlockOption
  | range (fromBlock toBlock : Option BlockNumberOrTag)
  | atBlockHash (hash : B256)
deriving DecidableEq

/-- A filter, with the addresses and topics of type `ρ`. -/
structure Filter (ρ : Type) where
  blockOption : FilterBlockOption
  rest : ρ

/-- The filter for the blocks from `first` to `last`, both included. -/
def Filter.between {ρ : Type} (rest : ρ) (first last : Nat) : Filter ρ :=
  ⟨.range (some (.number first)) (some (.number last)), rest⟩

/-- The blocks from `first` to `last`, both included. -/
def blocks (first last : Nat) : List Nat := List.range' first (last + 1 - first)

/-- A provider fails on whatever ranges it likes, or returns the logs of exactly their blocks. -/
structure Provider (ρ Log ε : Type) where
  getLogs : Filter ρ → Except ε (List Log)
  logsOf : ρ → Nat → List Log
  getLogs_eq : ∀ rest first last logs, getLogs (.between rest first last) = .ok logs →
    logs = (blocks first last).flatMap (logsOf rest)

/-! ### The query -/

variable {ρ Log ε : Type}

section

variable (provider : Provider ρ Log ε) (filter : Filter ρ)

def extractBlockRange : Option Nat × Option Nat :=
  match filter.blockOption with
  | .range fromBlock toBlock =>
    (fromBlock.bind BlockNumberOrTag.asNumber, toBlock.bind BlockNumberOrTag.asNumber)
  | .atBlockHash _ => (none, none)

/-- `(from..to).step_by(chunk_size)`, with the block after each chunk. The sum is a `u64`. -/
def chunkRanges (first last chunkSize : Nat) : List (Nat × Nat) :=
  (List.range ((last - first + chunkSize - 1) / chunkSize)).map fun i =>
    let start := first + i * chunkSize
    (start, min ((start + chunkSize) % 2 ^ 64) last)

/-- The last block of a chunk, `chunk_end - 1` as a `u64`. -/
def lastBlock (chunkEnd : Nat) : Nat := (chunkEnd + 2 ^ 64 - 1) % 2 ^ 64

/-- The logs of one block, or nothing if there is an error. -/
def singleLogs (rest : ρ) (block : Nat) : List Log :=
  match provider.getLogs (.between rest block block) with
  | .ok logs => logs
  | .error _ => []

/-- The logs of one chunk. -/
def chunkLogs (rest : ρ) (range : Nat × Nat) : Nat × List Log :=
  match provider.getLogs (.between rest range.1 (lastBlock range.2)) with
  | .ok logs => (range.1, logs)
  | .error _ => (range.1,
      (List.range' range.1 (range.2 - range.1)).flatMap (singleLogs provider rest))

/-- `get_logs_chunked_concurrent`. The chunks are queried at the same time, but their results come
in order. -/
def getLogsChunkedConcurrent (chunkSize : Nat) : Except ε (List Log) :=
  match extractBlockRange filter with
  | (some first, some last) =>
    if first ≥ last then .ok []
    else
      let allResults := (chunkRanges first last chunkSize).map (chunkLogs provider filter.rest)
      .ok ((allResults.insertionSort fun a b => a.1 ≤ b.1).flatMap Prod.snd)
  | _ => provider.getLogs filter

/-- `get_logs_chunked`. -/
def getLogsChunked (chunkSize : Nat) : Except ε (List Log) :=
  match provider.getLogs filter with
  | .ok logs => .ok logs
  | .error _ => getLogsChunkedConcurrent provider filter chunkSize

end

/-! ### The queries that are made -/

section

variable (provider : Provider ρ Log ε) (rest : ρ) (first last chunkSize : Nat)

/-- The provider answers a query for this range. -/
def Provider.Answers (range : Nat × Nat) : Prop :=
  ∃ logs, provider.getLogs (.between rest range.1 range.2) = .ok logs

/-- The ranges that may be queried: the whole one, the chunks, and single blocks. -/
def queriedRanges : List (Nat × Nat) :=
  (first, last) :: (chunkRanges first last chunkSize).flatMap fun range =>
    (range.1, lastBlock range.2) ::
      (List.range' range.1 (range.2 - range.1)).map fun block => (block, block)

/-- A block whose logs no query of these returns. -/
def Unobtained (block : Nat) : Prop :=
  ∀ range ∈ queriedRanges first last chunkSize, range.1 ≤ block → block ≤ range.2 →
    ¬provider.Answers rest range

/-- The answer is the logs of all blocks, or an error if those of some block were not obtained. -/
structure ExactLogs : Prop where
  complete : ∀ logs, getLogsChunked provider (.between rest first last) chunkSize = .ok logs →
    logs = (blocks first last).flatMap (provider.logsOf rest)
  obtained : (∃ block ∈ blocks first last,
      Unobtained provider rest first last chunkSize block) →
    ∃ e, getLogsChunked provider (.between rest first last) chunkSize = .error e

end

/-! ### Chunks -/

section

variable {first last chunkSize : Nat}

theorem lastBlock_eq {chunkEnd : Nat} (hpos : 0 < chunkEnd) (hlt : chunkEnd < 2 ^ 64) :
    lastBlock chunkEnd = chunkEnd - 1 := by
  unfold lastBlock
  omega

/-- A chunk begins before the last block. -/
theorem chunk_start {i : Nat} (hi : i < (last - first + chunkSize - 1) / chunkSize) :
    0 < chunkSize ∧ first + i * chunkSize < last := by
  have hpos : 0 < chunkSize := by
    rcases Nat.eq_zero_or_pos chunkSize with rfl | hpos
    · simp at hi
    · exact hpos
  have hmul : i * chunkSize + chunkSize ≤ last - first + chunkSize - 1 := by
    rw [← Nat.succ_mul]
    exact (Nat.mul_le_mul_right _ hi).trans (Nat.div_mul_le_self _ _)
  omega

/-- The chunks as long as nothing overflows. -/
theorem chunkRanges_eq (hbound : last + chunkSize < 2 ^ 64) :
    chunkRanges first last chunkSize =
      (List.range ((last - first + chunkSize - 1) / chunkSize)).map fun i =>
        (first + i * chunkSize, min (first + (i + 1) * chunkSize) last) := by
  refine List.map_congr_left fun i hi => ?_
  obtain ⟨-, hstart⟩ := chunk_start (List.mem_range.mp hi)
  have hmod : (first + i * chunkSize + chunkSize) % 2 ^ 64 = first + (i + 1) * chunkSize := by
    rw [Nat.succ_mul, Nat.mod_eq_of_lt (by omega), Nat.add_assoc]
  simp only [hmod]

theorem chunk_bounds (hbound : last + chunkSize < 2 ^ 64) {range : Nat × Nat}
    (h : range ∈ chunkRanges first last chunkSize) :
    range.1 < range.2 ∧ range.2 ≤ last ∧ range.2 < 2 ^ 64 := by
  rw [chunkRanges_eq hbound] at h
  obtain ⟨i, hi, rfl⟩ := List.mem_map.mp h
  obtain ⟨hpos, hstart⟩ := chunk_start (List.mem_range.mp hi)
  simp only [Nat.succ_mul]
  omega

end

/-! ### The answer -/

section

variable {provider : Provider ρ Log ε} {rest : ρ} {first last chunkSize : Nat}

theorem extractBlockRange_between :
    extractBlockRange (.between rest first last) = (some first, some last) := rfl

/-- The fallback never fails. -/
theorem getLogsChunked_of_error {e : ε}
    (h : provider.getLogs (.between rest first last) = .error e) :
    ∃ logs, getLogsChunked provider (.between rest first last) chunkSize = .ok logs := by
  simp only [getLogsChunked, h, getLogsChunkedConcurrent, extractBlockRange_between]
  split
  · exact ⟨_, rfl⟩
  · exact ⟨_, rfl⟩

/-- The fallback does not query the last block. -/
theorem unobtained_last (hbound : last + chunkSize < 2 ^ 64)
    (h : ¬provider.Answers rest (first, last)) :
    Unobtained provider rest first last chunkSize last := by
  intro range hrange hfirst hlast
  rcases List.mem_cons.mp hrange with rfl | hrange
  · exact h
  · obtain ⟨chunk, hchunk, hrange⟩ := List.mem_flatMap.mp hrange
    obtain ⟨hnonempty, hend, hlt⟩ := chunk_bounds hbound hchunk
    rcases List.mem_cons.mp hrange with rfl | hrange
    · simp only [lastBlock_eq (by omega : 0 < chunk.2) hlt] at hlast
      omega
    · obtain ⟨block, hblock, rfl⟩ := List.mem_map.mp hrange
      have hblock' := (List.mem_range'_1.mp hblock).2
      simp only at hfirst hlast
      omega

open Classical in
theorem exactLogs_of_answers (h : provider.Answers rest (first, last)) :
    ExactLogs provider rest first last chunkSize := by
  obtain ⟨logs, hlogs⟩ := h
  refine ⟨fun logs' hlogs' => ?_, ?_⟩
  · simp only [getLogsChunked, hlogs, Except.ok.injEq] at hlogs'
    subst hlogs'
    exact provider.getLogs_eq rest first last logs hlogs
  · rintro ⟨block, hblock, hnone⟩
    obtain ⟨hfirst, hlast⟩ := List.mem_range'_1.mp hblock
    exact absurd ⟨logs, hlogs⟩
      (hnone (first, last) List.mem_cons_self hfirst (by simp only; omega))

/-- **Logs in chunks.** If the query for the whole range succeeds, the answer is exact. Otherwise it
is not, as long as no number overflows: the chunks end before the last block, and a block whose logs
cannot be fetched is left out without an error. -/
theorem exactLogs_iff_answers (provider : Provider ρ Log ε) (rest : ρ) (first last chunkSize : Nat)
    (hle : first ≤ last) :
    (provider.Answers rest (first, last) → ExactLogs provider rest first last chunkSize) ∧
      (last + chunkSize < 2 ^ 64 →
        (ExactLogs provider rest first last chunkSize ↔ provider.Answers rest (first, last))) := by
  refine ⟨exactLogs_of_answers, fun hbound => ⟨fun hexact => ?_, exactLogs_of_answers⟩⟩
  by_contra hnot
  have hlast : last ∈ blocks first last := List.mem_range'_1.mpr (by omega)
  obtain ⟨e, herror⟩ := hexact.obtained ⟨last, hlast, unobtained_last hbound hnot⟩
  cases hfull : provider.getLogs (.between rest first last) with
  | ok logs => exact hnot ⟨logs, hfull⟩
  | error e' =>
    obtain ⟨logs, hlogs⟩ := @getLogsChunked_of_error _ _ _ _ _ _ _ chunkSize _ hfull
    rw [hlogs] at herror
    cases herror

end

/-- A provider that answers for one block at a time, each of which has one log. -/
def narrowProvider : Provider Unit Nat Unit where
  getLogs filter :=
    match extractBlockRange filter with
    | (some first, some last) => if first = last then .ok [first] else .error ()
    | _ => .error ()
  logsOf _ block := [block]
  getLogs_eq := by
    intro rest first last logs h
    simp only [extractBlockRange_between] at h
    split at h
    next heq =>
      cases h
      simp [heq, blocks]
    next => cases h

theorem not_answers_narrowProvider : ¬narrowProvider.Answers () (1, 2) := by
  rintro ⟨logs, h⟩
  cases h

/-- The logs of block 2 are missing. -/
theorem not_exactLogs :
    getLogsChunked narrowProvider (.between () 1 2) 1 = .ok [1] ∧
      ¬ExactLogs narrowProvider () 1 2 1 := by
  have hlogs : getLogsChunked narrowProvider (.between () 1 2) 1 = .ok [1] := by decide
  refine ⟨hlogs, fun hexact => ?_⟩
  exact absurd (hexact.complete [1] hlogs) (by decide)

/-- A range of one block is answered as a whole. One of two blocks is not. -/
theorem exactLogs_iff_answers_narrow :
    ExactLogs narrowProvider () 3 3 1 ∧ ¬ExactLogs narrowProvider () 1 2 1 := by
  refine ⟨(exactLogs_iff_answers narrowProvider () 3 3 1 (by decide)).1 ⟨[3], rfl⟩, ?_⟩
  rw [(exactLogs_iff_answers narrowProvider () 1 2 1 (by decide)).2 (by decide)]
  exact not_answers_narrowProvider

end BaseAnvil.Cast
