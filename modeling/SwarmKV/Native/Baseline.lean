import SwarmKV.Native.Llama

/-!
# The single-context baseline

The benchmark's reference run: one context decodes the whole document and then
the prompt. Its functions appear here as what they leave in the KV cache when
llama.cpp decodes every batch that has tokens, and as `none` when they throw.
-/

namespace SwarmKV.Baseline

/-- The loop of `decode_tokens_chunked`; one unit of fuel for each token. -/
def decodeTokensChunkedLoop (nBatch : Nat) (tokens : List LlamaToken) :
    (fuel offset : Nat) → List KvCell → Option (List KvCell)
  | 0, _, cells => some cells
  | fuel + 1, offset, cells =>
    if offset < tokens.length then
      let chunk := min (toInt32 nBatch) (tokens.length - offset : Nat)
      let batch := fillBatch 0 ((tokens.drop offset).take chunk.toNat) offset true
      if 0 < chunk then
        decodeTokensChunkedLoop nBatch tokens fuel (offset + chunk.toNat) (cells ++ batch.cells)
      else
        -- from 2^31 on, `llama_n_batch` is negative as an `int32_t`, and the decode fails
        none
    else some cells

/-- `decode_tokens_chunked` on a fresh context. -/
def decodeTokensChunked (nBatch : Nat) (tokens : List LlamaToken) : Option (List KvCell) :=
  decodeTokensChunkedLoop nBatch tokens tokens.length 0 []

/-- `run_baseline_agent`. -/
def runBaselineAgent (nBatch : Nat) (docTokens tailTok : List LlamaToken) :
    Option (List KvCell) := do
  let cells ← decodeTokensChunked nBatch docTokens
  pure (cells ++ (fillBatch 0 tailTok docTokens.length true).cells)

end SwarmKV.Baseline
