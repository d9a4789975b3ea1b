import SwarmKV.Native.Llama

/-!
# Exceptions

One constructor for each throw site, with the text the exception carries.
-/

namespace SwarmKV

/-- The exceptions of the pipeline. -/
inductive Error where
  -- pipeline_state.cpp
  | milestoneNotPositive
  | commitNullContext
  | commitNegativeTokens
  | commitBufferTooSmall
  | waitNegativeTokens
  -- kv_handoff.cpp
  | materializeNullBuffer
  | materializeTooLarge
  | bindNull
  -- memory_pool.cpp
  | sizingInitFailed
  | prefixAllocationFailed
  | branchAllocationFailed
  -- context_budget.h
  | budgetTokenizeFailed
  | budgetNegativePrefix
  | budgetExceeded (prefixTokens maxBranch headroom required limit : Int)
  -- prefill_node.cpp
  | documentUnreadable
  | prefillTokenizeFailed
  | prefillDecodeFailed
  | resumeMissingSnapshot (watermark : Int)
  | resumeSizeMismatch
  | prefillInitNull
  | documentTooLarge (tokens nCtx : Nat)
  | resumeInitNull
  -- analytical_node.cpp
  | branchTokenizeFailed
  | nullMemoryPool
  | missingPrefixSnapshot (watermark : Int)
  | noCanonicalBuffer
  | forkDataNull
  | branchBufferTooSmall
  | branchInitNull
  | branchSizeMismatch
  | emptyPrompt
  | branchBudget (e : Error)
  | branchDecodeFailed
  -- orchestrator.cpp and the standard library
  | duplicateNode (name : String)
  | cycle (u v : String)
  | outOfRange
  | promiseAlreadySatisfied
  | badAlloc
  deriving DecidableEq, Repr

/-- `std::exception::what`. -/
def Error.what : Error → String
  | milestoneNotPositive =>
    "PipelineState::register_snapshot_milestone: token_count must be > 0."
  | commitNullContext => "PipelineState::commit_watermark: null llama_context."
  | commitNegativeTokens => "PipelineState::commit_watermark: tokens_ready must be >= 0."
  | commitBufferTooSmall =>
    "PipelineState::commit_watermark: canonical buffer smaller than llama_state_seq_get_size."
  | waitNegativeTokens => "PipelineState::wait_for_watermark: required_tokens must be >= 0."
  | materializeNullBuffer => "KVHandoff::materialize_branch_cache: null buffer handle."
  | materializeTooLarge =>
    "KVHandoff::materialize_branch_cache: copy size exceeds buffer capacity."
  | bindNull => "KVHandoff::bind_contiguous_cache: null context or buffer."
  | sizingInitFailed => "MemoryPool::get_required_kv_size: llama_init_from_model failed."
  | prefixAllocationFailed => "MemoryPool::allocate_prefix_cache: allocation failed."
  | branchAllocationFailed => "MemoryPool::allocate_branch_cache: allocation failed."
  | budgetTokenizeFailed => "swarmkv_tokenize_for_budget: tokenize failed."
  | budgetNegativePrefix => "swarmkv_validate_context_budget: negative prefix_tokens."
  | budgetExceeded prefixTokens maxBranch headroom required limit =>
    s!"Context budget exceeded: prefix_tokens={prefixTokens} max_branch_tokens={maxBranch}" ++
    s!" headroom={headroom} required={required} n_ctx={limit}"
  | documentUnreadable => "basic_filebuf::underflow error reading the file"
  | prefillTokenizeFailed => "PrefillNode: tokenize failed after resize."
  | prefillDecodeFailed => "PrefillNode: llama_decode failed during chunked prefill."
  | resumeMissingSnapshot watermark =>
    s!"PrefillNode: missing snapshot to resume prefill at watermark {watermark}"
  | resumeSizeMismatch => "PrefillNode: llama_state_seq_set_data resume size mismatch."
  | prefillInitNull => "PrefillNode: llama_init_from_model returned null."
  | documentTooLarge tokens nCtx =>
    s!"PrefillNode: document token count ({tokens}) exceeds n_ctx={nCtx}"
  | resumeInitNull => "PrefillNode: llama_init_from_model failed after milestone resume."
  | branchTokenizeFailed => "AnalyticalNode: tokenize failed after resize."
  | nullMemoryPool => "AnalyticalNode: null MemoryPool in OrchestratorContext."
  | missingPrefixSnapshot watermark =>
    s!"AnalyticalNode: missing prefix snapshot at watermark {watermark}."
  | noCanonicalBuffer => "AnalyticalNode: exported prefix bytes but no canonical buffer."
  | forkDataNull => "AnalyticalNode: fork_kv_bytes > 0 but fork_data is null."
  | branchBufferTooSmall => "AnalyticalNode: branch buffer smaller than fork_kv_bytes."
  | branchInitNull => "AnalyticalNode: llama_init_from_model returned null."
  | branchSizeMismatch => "AnalyticalNode: llama_state_seq_set_data size mismatch."
  | emptyPrompt => "AnalyticalNode: empty prompt after tokenization."
  | branchBudget e => "AnalyticalNode: " ++ e.what
  | branchDecodeFailed => "AnalyticalNode: llama_decode failed."
  | duplicateNode name => s!"Node with name '{name}' already registered."
  | cycle u v => "Dependency cycle detected: " ++ u ++ " -> " ++ v
  | outOfRange => "std::out_of_range"
  | promiseAlreadySatisfied => "std::future_error: Promise already satisfied"
  | badAlloc => "std::bad_alloc"

/-- How an `execute` or a worker ended. -/
abbrev Outcome := Except Error Unit

end SwarmKV
