import SwarmKV.Spec.Sequential
import Mathlib.Logic.Equiv.Nat

/-!
# A toy engine

An engine that meets the assumptions about llama.cpp: it exports a sequence as its
numbers in unary, and restores it by reading them back. Documents and prompts are
short and made of equal tokens.
-/

namespace SwarmKV.Toy

/-! ## Exports -/

/-- A number in unary. -/
def writeNat (n : Nat) : List UInt8 := List.replicate n 1 ++ [0]

/-- A position with its token. -/
def writeEntry (p : Int × LlamaToken) : List UInt8 :=
  writeNat (Equiv.intEquivNat p.1) ++ writeNat (Equiv.intEquivNat p.2)

/-- The export of a sequence. -/
def write (s : SeqState) : List UInt8 := s.flatMap writeEntry

/-- The numbers in an export, with `n` read of the first one. -/
def readNats (n : Nat) : List UInt8 → List Nat
  | [] => []
  | b :: bytes => if b = 0 then n :: readNats 0 bytes else readNats (n + 1) bytes

/-- The positions and tokens. -/
def readEntries : List Nat → SeqState
  | m :: k :: rest => (Equiv.intEquivNat.symm m, Equiv.intEquivNat.symm k) :: readEntries rest
  | _ => []

/-- The sequence behind an export. -/
def read (bytes : List UInt8) : SeqState := readEntries (readNats 0 bytes)

theorem readNats_writeNat (n k : Nat) (rest : List UInt8) :
    readNats n (writeNat k ++ rest) = (n + k) :: readNats 0 rest := by
  induction k generalizing n with
  | zero => simp [writeNat, readNats]
  | succ k ih =>
    have hone : (1 : UInt8) ≠ 0 := by decide
    have hstep := ih (n + 1)
    simp only [writeNat, List.replicate_succ, List.cons_append, readNats, if_neg hone]
    rw [show n + (k + 1) = n + 1 + k by omega]
    exact hstep

/-- What was written can be read. -/
theorem read_write (s : SeqState) : read (write s) = s := by
  induction s with
  | nil => rfl
  | cons p s ih =>
    unfold read write at ih
    simp only [read, write, writeEntry, List.flatMap_cons, List.append_assoc, readNats_writeNat,
      Nat.zero_add, readEntries, Equiv.symm_apply_apply, ih]

theorem write_ne_nil {s : SeqState} (h : s ≠ []) : write s ≠ [] := by
  cases s with
  | nil => exact absurd rfl h
  | cons p s => simp [write, writeEntry, writeNat]

/-! ## The engine -/

/-- Documents have `docTokens` tokens and prompts one; with `mayFail` an export can also
    fail. -/
def engine (docTokens : Fin 8) (mayFail : Bool) : Engine where
  llamaTokenize text _ _ :=
    if text = "document" then (docTokens, List.replicate docTokens 5) else (1, [7])
  llamaTokenize_lt text len cap := by
    split
    · simp
      omega
    · simp
  llamaNBatch := 4
  llamaNBatch_pos := by decide
  llamaNBatch_lt := by decide
  llamaStateGetSize nCtx := nCtx
  llamaStateSeqGetSize s := (write s).length
  exports s bytes := decide (bytes = write s) || mayFail && bytes.isEmpty
  exports_total s := ⟨write s, by simp⟩
  exports_size s bytes h := by
    simp only [Bool.or_eq_true, decide_eq_true_eq, Bool.and_eq_true, List.isEmpty_iff] at h
    obtain rfl | ⟨-, rfl⟩ := h <;> simp
  restore bytes := some (read bytes)
  readFile path := .contents path

theorem engine_roundTrips (docTokens : Fin 8) (mayFail : Bool) :
    (engine docTokens mayFail).RoundTrips := by
  intro s bytes h hne
  have h : (decide (bytes = write s) || mayFail && bytes.isEmpty) = true := h
  obtain rfl : bytes = write s := by
    simpa [List.isEmpty_iff, hne] using h
  exact congrArg some (read_write s)

theorem engine_exportsNonempty (docTokens : Fin 8) :
    (engine docTokens false).ExportsNonempty := by
  intro s bytes hs h
  have h : (decide (bytes = write s) || false && bytes.isEmpty) = true := h
  obtain rfl : bytes = write s := by simpa using h
  exact write_ne_nil hs

/-- The calls of the engine, when none fails. -/
def calls : Calls where
  decode _ _ := true
  getData := write
  setData _ _ := true

theorem calls_exports (docTokens : Fin 8) (s : SeqState) (bytes : List UInt8)
    (h : (engine docTokens false).exports s bytes = true) : bytes = calls.getData s := by
  have h : (decide (bytes = write s) || false && bytes.isEmpty) = true := h
  have heq : bytes = write s := by simpa using h
  exact heq

theorem calls_faithful (docTokens : Fin 8) : calls.Faithful (engine docTokens false) where
  exports := calls_exports docTokens
  decode _ _ _ := rfl
  getData _ := write_ne_nil
  setData _ _ := rfl
  restore q _ := congrArg some (read_write q)

theorem length_write (s : SeqState) : (write s).length =
    (s.map fun p => Equiv.intEquivNat p.1 + Equiv.intEquivNat p.2 + 2).sum := by
  induction s with
  | nil => rfl
  | cons p s ih =>
    unfold write at ih
    simp only [write, writeEntry, writeNat, List.flatMap_cons, List.length_append,
      List.length_replicate, List.length_singleton, List.map_cons, List.sum_cons, ih]
    omega

/-- The engine of a document of one token. -/
def shortEngine : Engine := engine 1 false

/-- An engine whose texts are long unless they are as short as a prompt, with room for them. -/
def longEngine (docTokens : Fin 4096) : Engine :=
  { shortEngine with
    llamaTokenize := fun text _ _ =>
      if text.length < 30 then (1, [7]) else (docTokens, List.replicate docTokens 5)
    llamaTokenize_lt := by
      intro text len cap
      split
      · simp
      · simp
        omega
    llamaStateGetSize := fun _ => 2 ^ 20
    readFile := fun _ => .contents "A document that is longer than a prompt." }

/-- An engine that takes a slice of a long document in one batch, and exports nothing. -/
def muteEngine (docTokens : Fin 4096) : Engine :=
  { longEngine docTokens with
    llamaNBatch := 128
    llamaNBatch_pos := by decide
    llamaNBatch_lt := by decide
    llamaStateSeqGetSize := fun _ => 0
    exports := fun _ bytes => bytes.isEmpty
    exports_total := fun _ => ⟨[], rfl⟩
    exports_size := fun _ bytes h => by
      rw [List.isEmpty_iff.mp h]
      exact Nat.le_refl 0 }

theorem longEngine_faithful (docTokens : Fin 4096) : calls.Faithful (longEngine docTokens) :=
  { calls_faithful 1 with }

/-! ## Pipelines -/

/-- The orchestrator with the given nodes and edges. -/
def graph (nodes : List (String × Node)) (hnodes : (nodes.map Prod.fst).Nodup)
    (edges : List (String × String)) : Orchestrator :=
  edges.foldl (fun o e => o.addDependency e.1 e.2)
    { Orchestrator.empty with nodes := nodes, nodup := hnodes }

/-- A prefiller `P` over the document. -/
def prefiller : String × Node := ("P", .prefill ⟨"document"⟩)

/-- A branch. -/
def branch (name : String) (requiredPrefixTokens : Int) : String × Node :=
  (name, .analytical ⟨"prompt", requiredPrefixTokens⟩)

/-- The prefiller with one branch `B` that forks at `requiredPrefixTokens`, and the
    milestones that the caller registers. -/
def star (docTokens : Fin 8) (mayFail : Bool) (requiredPrefixTokens : Int)
    (milestones : List Nat := []) : Pipeline where
  engine := engine docTokens mayFail
  orchestrator := graph [prefiller, branch "B" requiredPrefixTokens]
    (by simp [prefiller, branch]) [("P", "B")]
  staging := some 64
  milestones := (milestones.filter (0 < ·)).map fun t : Nat => (t : Int)
  milestones_pos := by
    intro t ht
    obtain ⟨k, hk, rfl⟩ := List.mem_map.mp ht
    have hpos : 0 < k := by simpa using (List.mem_filter.mp hk).2
    omega

theorem star_fedBy (docTokens : Fin 8) (mayFail : Bool) (requiredPrefixTokens : Int)
    (milestones : List Nat) :
    (star docTokens mayFail requiredPrefixTokens milestones).orchestrator.FedBy "P" where
  provider _ := rfl
  sole n hn := by
    by_contra hne
    have hmem := Orchestrator.mem_names_of_isPrefill hn
    have hmem : n ∈ ["P", "B"] := hmem
    obtain rfl : n = "B" := by simpa [hne] using hmem
    cases hn
  direct _ n hn hne := by
    have hmem : n ∈ ["P", "B"] := hn
    obtain rfl : n = "B" := by simpa [hne] using hmem
    exact List.mem_singleton_self "P"
  registered n hn d hd := by
    have hmem : n ∈ ["P", "B"] := hn
    obtain rfl | rfl : n = "P" ∨ n = "B" := by simpa using hmem
    · cases hd
    · obtain rfl := List.mem_singleton.mp hd
      exact List.mem_cons_self

/-- The prefiller with a branch `B` that forks at 1, but waits for a full-prefill branch
    `A` first. -/
def crossed : Pipeline where
  engine := engine 1 false
  orchestrator := graph [prefiller, branch "A" (-1), branch "B" 1] (by simp [prefiller, branch])
    [("P", "A"), ("P", "B"), ("A", "B")]
  staging := some 64
  milestones := []
  milestones_pos := by simp

/-- A single branch with a prompt of two tokens, and batches of one. -/
def longPrompt : Pipeline where
  engine := { engine 1 false with
    llamaTokenize := fun _ _ _ => (2, [7, 7])
    llamaTokenize_lt := by simp
    llamaNBatch := 1
    llamaNBatch_pos := Nat.zero_lt_one
    llamaNBatch_lt := by decide }
  orchestrator := graph [branch "B" (-1)] (by simp [branch]) []
  staging := some 64
  milestones := []
  milestones_pos := by simp

/-- A branch `A` behind a node `X` that is not registered, and a branch `B` behind `A`. -/
def dangling : Pipeline where
  engine := engine 1 false
  orchestrator := graph [branch "A" (-1), branch "B" (-1)] (by simp [branch])
    [("X", "A"), ("A", "B")]
  staging := some 64
  milestones := []
  milestones_pos := by simp

/-- Two prefillers over the same document, and a branch `B` that forks at 1 of the first. -/
def twins : Pipeline where
  engine := engine 1 false
  orchestrator := graph [prefiller, ("Q", .prefill ⟨"document"⟩), branch "B" 1]
    (by simp [prefiller, branch]) [("P", "B")]
  staging := some 64
  milestones := []
  milestones_pos := by simp

/-- The prefiller and the branch at 1, registered the other way round. -/
def flipped : Pipeline where
  engine := engine 1 false
  orchestrator := graph [branch "B" 1, prefiller] (by simp [prefiller, branch]) [("P", "B")]
  staging := some 64
  milestones := []
  milestones_pos := by simp

theorem star_sameNodes : (star 1 false 1).SameNodes flipped where
  engine := rfl
  staging := rfl
  node n := by
    show [branch "B" 1, prefiller].lookup n = [prefiller, branch "B" 1].lookup n
    by_cases hP : n = "P"
    · subst hP
      rfl
    · have hP : (n == "P") = false := beq_eq_false_iff_ne.mpr hP
      by_cases hB : n = "B"
      · subst hB
        rfl
      · have hB : (n == "B") = false := beq_eq_false_iff_ne.mpr hB
        simp [branch, prefiller, List.lookup_cons, hP, hB]
  milestones _ := Iff.rfl

theorem flipped_fedBy : flipped.orchestrator.FedBy "P" := by
  have hfed := star_fedBy 1 false 1 []
  have hprefill : ∀ n, flipped.orchestrator.isPrefill n =
      (star 1 false 1).orchestrator.isPrefill n := by
    intro n
    rw [Orchestrator.isPrefill, Orchestrator.isPrefill, star_sameNodes.node]
  refine ⟨fun _ => rfl, fun n hn => hfed.sole n (hprefill n ▸ hn), fun _ n hn hne => ?_,
    fun n hn d hd => ?_⟩
  · exact hfed.direct (by decide) n (star_sameNodes.mem_names.mp hn) hne
  · exact star_sameNodes.mem_names.mpr (hfed.registered n (star_sameNodes.mem_names.mp hn) d hd)

/-- A tokenizer of bytes: a long text has two tokens, `document` and a shorter text one. -/
def byteTokens (bytes : List UInt8) : List LlamaToken :=
  if bytes.length < 8 then [7] else if bytes.length = 8 then [5] else [9, 9]

theorem byteTokens_length (bytes : List UInt8) : (byteTokens bytes).length ≤ 2 := by
  unfold byteTokens
  repeat' split
  all_goals simp

/-- An engine that heeds length and capacity. -/
def byteEngine : Engine :=
  { shortEngine with
    llamaTokenize := fun text len cap =>
      let tokens := byteTokens ((textBytes text).take len.toNat)
      if tokens.length ≤ cap then (tokens.length, tokens) else (-tokens.length, [])
    llamaTokenize_lt := by
      intro text len cap
      have htwo := byteTokens_length ((textBytes text).take len.toNat)
      dsimp only
      split <;> dsimp only <;> omega }

theorem byteEngine_tokenizes : byteEngine.Tokenizes byteTokens := by
  intro text len cap _
  simp only [byteEngine, Int.toNat_natCast]
  split <;> rfl

/-- The prefiller and the branch at 1, with this engine. -/
def capped : Pipeline where
  engine := byteEngine
  orchestrator := (Toy.star 1 false 1).orchestrator
  staging := some 64
  milestones := []
  milestones_pos := by simp

/-- The first slice of a document of 130 tokens. -/
def slice : SeqState := docSeq (List.replicate 130 5) 128

/-- The export of a sequence, with a single byte for the slice. -/
def shorten (s : SeqState) : List UInt8 := if s = slice then [2] else write s

/-- The sequence behind such an export. -/
def expand (bytes : List UInt8) : SeqState := if bytes = [2] then slice else read bytes

theorem two_not_mem_write (s : SeqState) : 2 ∉ write s := by
  simp [write, writeEntry, writeNat, List.mem_replicate]

theorem expand_shorten (s : SeqState) : expand (shorten s) = s := by
  unfold expand shorten
  by_cases hs : s = slice
  · rw [if_pos hs, if_pos rfl, hs]
  · have hne : write s ≠ [2] := fun heq => two_not_mem_write s (heq ▸ List.mem_singleton_self 2)
    rw [if_neg hs, if_neg hne, read_write]

theorem shorten_ne_nil {s : SeqState} (h : s ≠ []) : shorten s ≠ [] := by
  unfold shorten
  split
  · simp
  · exact write_ne_nil h

/-- The long document in batches of 100 tokens. -/
def slicedEngine : Engine :=
  { longEngine 130 with
    llamaNBatch := 100
    llamaNBatch_pos := by decide
    llamaNBatch_lt := by decide
    llamaStateSeqGetSize := fun s => (shorten s).length
    exports := fun s bytes => decide (bytes = shorten s)
    exports_total := fun s => ⟨shorten s, decide_eq_true rfl⟩
    exports_size := fun s bytes h => by
      rw [of_decide_eq_true h]
    restore := fun bytes => some (expand bytes) }

theorem slicedEngine_roundTrips : slicedEngine.RoundTrips := by
  intro s bytes h _
  obtain rfl : bytes = shorten s := of_decide_eq_true h
  exact congrArg some (expand_shorten s)

theorem slicedEngine_exportsNonempty : slicedEngine.ExportsNonempty := by
  intro s bytes hs h
  obtain rfl : bytes = shorten s := of_decide_eq_true h
  exact shorten_ne_nil hs

/-- A document of 130 tokens, and a branch that forks behind its first slice. -/
def sliced : Pipeline where
  engine := slicedEngine
  orchestrator := graph [prefiller, branch "B" 128] (by simp [prefiller, branch]) [("P", "B")]
  staging := some 64
  milestones := []
  milestones_pos := by simp

/-- A document of one token, and batches of 2^31 tokens. -/
def hugeBatch : Pipeline where
  engine := { shortEngine with
    llamaNBatch := 2 ^ 31
    llamaNBatch_pos := by decide
    llamaNBatch_lt := by decide }
  orchestrator := graph [prefiller, branch "B" 1] (by simp [prefiller, branch]) [("P", "B")]
  staging := some 64
  milestones := []
  milestones_pos := by simp

/-! ## Schedules -/

/-- A schedule: threads with the outcomes of their steps. -/
abbrev Schedule := List (Thread × Choice)

/-- `n` steps of the worker of a node, in which nothing fails. -/
def steps (name : String) (n : Nat) : Schedule := List.replicate n (.worker name, .ok)

/-- The worker of a node exports these bytes. -/
def exporting (name : String) (bytes : List UInt8) : Schedule := [(.worker name, .data bytes)]

/-- The worker of a node fails at a call. -/
def failing (name : String) : Schedule := [(.worker name, .fail)]

/-- The prefiller exports its one token and pauses. -/
def pauseAtOne : Schedule := steps "P" 16 ++ exporting "P" (write [(0, 5)]) ++ steps "P" 20

/-- The prefiller exports its one token, and the branch takes the guard before the pause. -/
def overtakeAtOne : Schedule :=
  steps "P" 16 ++ exporting "P" (write [(0, 5)]) ++ steps "P" 12 ++ steps "B" 10

/-- Like `overtakeAtOne`; then the branch and the prefiller end, and the caller joins both. -/
def joinOvertaken : Schedule :=
  overtakeAtOne ++ steps "B" 37 ++ steps "P" 31 ++ List.replicate 8 (.main, .ok)

/-- The branch at 1 goes on to its `llama_decode`. -/
def forkAtOne : Schedule := pauseAtOne ++ steps "B" 27

/-- The prefiller exports its first slice of 128 tokens and pauses, the branch forks there and ends,
    and the prefiller goes on to its next commit. -/
def resumeSliced : Schedule :=
  steps "P" 19 ++ exporting "P" [2] ++ steps "P" 20 ++
    steps "B" 38 ++ steps "P" 2 ++ steps "B" 6 ++ steps "P" 12

/-- Like `resumeSliced`; then the prefiller ends. -/
def endSliced : Schedule := resumeSliced ++ steps "P" 24

/-- The prefiller submits a batch of a negative number of tokens, and fails. -/
def refuseHuge : Schedule := steps "P" 11

/-- The other provider exports its one token, and the branch at 1 goes on to its
    `llama_decode`. -/
def forkOfTwin : Schedule :=
  steps "Q" 16 ++ exporting "Q" (write [(0, 5)]) ++ steps "Q" 20 ++ steps "B" 27

/-- The branch at 1 decodes its prompt and ends. -/
def endAtOne : Schedule := forkAtOne ++ steps "B" 20

/-- Like `endAtOne`; then the prefiller ends, and the caller joins both. -/
def joinAtOne : Schedule := endAtOne ++ steps "P" 24 ++ List.replicate 8 (.main, .ok)

/-- The branch at 1 fails to size its buffer. -/
def failBeforeFork : Schedule := pauseAtOne ++ steps "B" 10 ++ failing "B" ++ steps "B" 3

/-- The prefiller publishes 1 and gets no memory for the entry of the snapshot; the branch at 1
    finds none, and the caller joins both. -/
def failFiling : Schedule :=
  steps "P" 16 ++ exporting "P" (write [(0, 5)]) ++ steps "P" 7 ++ failing "P" ++ steps "P" 5 ++
    steps "B" 17 ++ List.replicate 7 (.main, .ok)

/-- The prefiller gets no context and fails; the full-prefill branch starts. -/
def startAfterFailure : Schedule := steps "P" 2 ++ failing "P" ++ steps "P" 3 ++ steps "B" 2

/-- The prefiller fails, the full-prefill branch ends, and the caller joins both. -/
def joinAfterFailure : Schedule :=
  steps "P" 2 ++ failing "P" ++ steps "P" 3 ++ steps "B" 28 ++ List.replicate 7 (.main, .ok)

/-- Like `forkAtOne`, with an export that writes nothing. -/
def forkFailed : Schedule :=
  steps "P" 16 ++ exporting "P" [] ++ steps "P" 18 ++ steps "B" 15

/-- The prefiller exports its one token and ends; the full-prefill branch goes on to its
    `llama_decode`. -/
def forkAtEnd : Schedule :=
  steps "P" 16 ++ exporting "P" (write [(0, 5)]) ++ steps "P" 43 ++ steps "B" 26

/-- `n` steps of the caller, in which nothing fails. -/
def calling (n : Nat) : Schedule := List.replicate n (.main, .ok)

/-- In the benchmark, the first branch forks at 512 and ends, and the second one is woken at 3072
    and about to look its snapshot up. -/
def wakeBoth : Schedule :=
  steps "Prefiller" 57 ++ exporting "Prefiller" [] ++ steps "Prefiller" 18 ++ calling 25 ++
    steps "Prefiller" 2 ++ calling 6 ++ steps "Prefiller" 355 ++ calling 5

end SwarmKV.Toy

namespace SwarmKV.Pipeline

/-- The state of a pipeline after a schedule. -/
def after (cfg : Pipeline) (s : Toy.Schedule) : Config cfg.engine := cfg.initial.after s

theorem reachable_after (cfg : Pipeline) (s : Toy.Schedule) : cfg.Reachable (cfg.after s) :=
  Monitor.Config.reaches_after _ _

end SwarmKV.Pipeline
