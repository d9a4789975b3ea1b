import Mathlib.Algebra.Order.Ring.Int

/-!
# The llama.cpp surface

What the pipeline uses of llama.cpp and ggml. The library itself is a third-party
checkout, so it appears here as a parameter: `Engine` collects its functions, and
what a context stores is kept only as far as the pipeline can tell, that is the
sequence of (sequence id, position, token) entries decoded into it.
-/

namespace SwarmKV

/-- `llama_token`. -/
abbrev LlamaToken := Int

/-- `kSwarmkvPrefillChunkTokens`: document tokens per readiness slice. -/
def kSwarmkvPrefillChunkTokens : Nat := 128

/-- `kSwarmkvPrefixSeqId`: the only sequence lane in use. -/
def kSwarmkvPrefixSeqId : Int := 0

/-- `kSwarmkvWaitForPrefillComplete`: wait for the whole prefill. -/
def kSwarmkvWaitForPrefillComplete : Int := -1

/-- `kSwarmkvDefaultPipelineCtx`: the context length of a pipeline. -/
def kSwarmkvDefaultPipelineCtx : Nat := 4096

/-- `static_cast<int32_t>`, and the result of an `int32_t` operation. -/
def toInt32 (x : Int) : Int := x.bmod (2 ^ 32)

/-- One entry of a context's KV cache. -/
structure KvCell where
  seqId : Int
  pos : Int
  token : LlamaToken
  deriving DecidableEq, Repr

/-- The state of one sequence, as `llama_state_seq_get_data` sees it. -/
abbrev SeqState := List (Int × LlamaToken)

/-- The part of a KV cache that belongs to sequence `seq`. -/
def seqState (seq : Int) (cells : List KvCell) : SeqState :=
  (cells.filter fun c => c.seqId = seq).map fun c => (c.pos, c.token)

/-- A KV cache whose sequence `seq` has been replaced by `s`. -/
def restoreSeq (seq : Int) (s : SeqState) (cells : List KvCell) : List KvCell :=
  cells.filter (fun c => c.seqId ≠ seq) ++ s.map fun p => ⟨seq, p.1, p.2⟩

/-- One slot of a `llama_batch`. -/
structure BatchToken where
  token : LlamaToken
  pos : Int
  seqId : Int
  logits : Bool
  deriving DecidableEq, Repr

/-- A `llama_batch`; `id` names the allocation behind it. -/
structure LlamaBatch where
  id : Nat
  nTokens : Int
  slots : List BatchToken
  deriving DecidableEq, Repr

/-- What decoding a batch adds to the KV cache. -/
def LlamaBatch.cells (b : LlamaBatch) : List KvCell :=
  b.slots.map fun t => ⟨t.seqId, t.pos, t.token⟩

/-- The loops that fill a batch: `tokens` at consecutive positions from `start` on
    the prefix sequence, with logits on the last one only if `lastLogits`. -/
def fillBatch (id : Nat) (tokens : List LlamaToken) (start : Int) (lastLogits : Bool) :
    LlamaBatch where
  id := id
  nTokens := tokens.length
  slots := tokens.zipIdx.map fun (t, i) =>
    { token := t, pos := start + i, seqId := kSwarmkvPrefixSeqId,
      logits := lastLogits && i + 1 == tokens.length }

/-- What comes of reading a file through an `std::ifstream`. -/
inductive FileRead where
  /-- It cannot be opened. -/
  | missing
  /-- It has been opened, and reading throws: it is a directory, or the device fails. -/
  | unreadable
  | contents (text : String)
  deriving DecidableEq, Repr

/-- The functions of llama.cpp and of the host that the pipeline calls. -/
structure Engine where
  /-- `llama_tokenize` of the first `text_len` bytes of a text into a buffer of
      `n_tokens_max` tokens, both of them an `int32_t`: the returned count, negative when
      the buffer is too small, and the tokens written. -/
  llamaTokenize : String → Int → Int → Int × List LlamaToken
  /-- The count is an `int32_t`. -/
  llamaTokenize_lt : ∀ text len cap, (llamaTokenize text len cap).1 < 2 ^ 31
  /-- `llama_n_batch` of a context, a `uint32_t`. -/
  llamaNBatch : Nat
  llamaNBatch_pos : 0 < llamaNBatch
  llamaNBatch_lt : llamaNBatch < 2 ^ 32
  /-- `llama_state_get_size` of a fresh context of `n_ctx` tokens. -/
  llamaStateGetSize : Nat → Nat
  /-- `llama_state_seq_get_size` of a sequence. -/
  llamaStateSeqGetSize : SeqState → Nat
  /-- `llama_state_seq_get_data` may write these bytes for a sequence; the empty
      list is the failing call, which returns 0. -/
  exports : SeqState → List UInt8 → Bool
  exports_total : ∀ s, ∃ bytes, exports s bytes = true
  /-- `llama_state_seq_get_size` bounds what `llama_state_seq_get_data` writes. -/
  exports_size : ∀ s bytes, exports s bytes = true → bytes.length ≤ llamaStateSeqGetSize s
  /-- The sequence that `llama_state_seq_set_data` restores from some bytes, if it
      accepts them. -/
  restore : List UInt8 → Option SeqState
  /-- The file a path names. -/
  readFile : String → FileRead

namespace Engine

/-- `llama_state_seq_set_data` restores what `llama_state_seq_get_data` exported. -/
def RoundTrips (E : Engine) : Prop :=
  ∀ s bytes, E.exports s bytes = true → bytes ≠ [] → E.restore bytes = some s

/-- `llama_state_seq_get_data` returns a positive size for a non-empty sequence. -/
def ExportsNonempty (E : Engine) : Prop :=
  ∀ s bytes, s ≠ [] → E.exports s bytes = true → bytes ≠ []

end Engine

end SwarmKV
