import SwarmKV.Native.PipelineState

/-!
# Buffers

`MemoryPool`, which owns every ggml buffer of a pipeline, and `KVHandoff`, which
copies between two of them.
-/

namespace SwarmKV

namespace MemoryPool

/-- `get_required_kv_size`: ask a disposable context; 1 MiB if it reports nothing. -/
def getRequiredKvSize (nCtx : Nat) : Prog Nat := do
  match ← perform .llamaInitFromModel with
  | none => throw .sizingInitFailed
  | some ctx => do
    let sz ← perform (.llamaStateGetSize ctx nCtx)
    perform (.llamaFree ctx)
    pure (if sz = 0 then 2 ^ 20 else sz)

/-- The body of both allocation functions, with the exception each of them throws. -/
def allocateCache (failure : Error) (nCtx : Nat) : Prog Nat :=
  withLock .poolMutex do
    let kvSize ← getRequiredKvSize nCtx
    match ← perform (.allocBuffer kvSize) with
    | none => throw failure
    | some buffer => do
      alloc
      perform (.pushActiveBuffer buffer)
      pure buffer

/-- `allocate_prefix_cache`. -/
def allocatePrefixCache (nCtx : Nat) : Prog Nat := allocateCache .prefixAllocationFailed nCtx

/-- `allocate_branch_cache`. -/
def allocateBranchCache (nCtx : Nat) : Prog Nat := allocateCache .branchAllocationFailed nCtx

/-- The loop of `free_all`. -/
def freeBuffers : List Nat → Prog Unit
  | [] => pure ()
  | buffer :: rest => do
    perform (.freeBuffer buffer)
    freeBuffers rest

/-- `free_all`. -/
def freeAll : Prog Unit :=
  withLock .poolMutex do
    let activeBuffers ← perform .getActiveBuffers
    freeBuffers activeBuffers
    perform .clearActiveBuffers

/-- The destructor. -/
def destroy : Prog Unit := tryCatch freeAll fun _ => pure ()

end MemoryPool

namespace KVHandoff

/-- `materialize_branch_cache`; zero bytes stands for the whole source. -/
def materializeBranchCache (source target : Option Nat) (nbytes : Nat) : Prog Unit :=
  match source, target with
  | some source, some target => do
    let srcCap ← perform (.bufferSize source)
    let dstCap ← perform (.bufferSize target)
    let ncopy := if nbytes = 0 then srcCap else nbytes
    if ncopy > srcCap ∨ ncopy > dstCap then throw .materializeTooLarge
    else do
      let bytes ← perform (.readBytes (.buffer source) ncopy)
      perform (.writeBytes target bytes)
  | _, _ => throw .materializeNullBuffer

/-- `bind_contiguous_cache`: only checks its arguments. -/
def bindContiguousCache (ctx cache : Option Nat) : Prog Unit :=
  if ctx.isNone ∨ cache.isNone then throw .bindNull else pure ()

end KVHandoff

end SwarmKV
