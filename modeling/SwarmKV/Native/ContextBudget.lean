import SwarmKV.Native.PipelineState

/-!
# Tokenization and the context budget

The three tokenize helpers of the repository are one body with different error
texts: one call with a generous capacity, and a second one when the first asked
for more.
-/

namespace SwarmKV

/-- `std::vector::resize` of a token vector. -/
def resizeTokens (tokens : List LlamaToken) (n : Nat) : List LlamaToken :=
  tokens.take n ++ List.replicate (n - tokens.length) 0

/-- The body of the tokenize helpers, with the exception each of them throws. -/
def tokenizeWith (failure : Error) (E : Engine) (text : String) : Prog (List LlamaToken) := do
  alloc
  let textLen := toInt32 text.utf8ByteSize
  let (n, tokens) := E.llamaTokenize text textLen (toInt32 (text.utf8ByteSize + 8 : Nat))
  if n < 0 then do
    alloc
    let (n, tokens) := E.llamaTokenize text textLen (toInt32 (-n).toNat)
    if n < 0 then throw failure else pure (resizeTokens tokens n.toNat)
  else pure (resizeTokens tokens n.toNat)

/-- `swarmkv_tokenize_for_budget`. -/
def swarmkvTokenizeForBudget (E : Engine) (text : String) : Prog (List LlamaToken) :=
  tokenizeWith .budgetTokenizeFailed E text

/-- The loop of `swarmkv_validate_context_budget`: the longest prompt. -/
def maxBranchTokens (E : Engine) : List String → Int → Prog Int
  | [], maxBranch => pure maxBranch
  | prompt :: rest, maxBranch => do
    let tokens ← swarmkvTokenizeForBudget E prompt
    maxBranchTokens E rest (max maxBranch (toInt32 tokens.length))

/-- `swarmkv_validate_context_budget`. -/
def swarmkvValidateContextBudget (E : Engine) (prefixTokens : Int) (branchPrompts : List String)
    (nCtx : Nat := kSwarmkvDefaultPipelineCtx) (generationHeadroom : Int := 128) : Prog Unit :=
  if prefixTokens < 0 then throw .budgetNegativePrefix
  else do
    let maxBranch ← maxBranchTokens E branchPrompts 0
    let limit := toInt32 nCtx
    let required := toInt32 (prefixTokens + maxBranch + generationHeadroom)
    if required > limit then
      throw (.budgetExceeded prefixTokens maxBranch generationHeadroom required limit)
    else pure ()

/-- `OrchestratorContext`; the pool is only ever tested for null. -/
structure OrchestratorContext where
  engine : Engine
  nCtx : Nat
  memoryPool : Bool
  nodeName : String

end SwarmKV
