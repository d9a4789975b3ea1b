import SwarmKV.Native.Orchestrator

/-!
# The codebase audit

`main` of the example program: a document, an auditor that starts behind its first 512 tokens, and
an auditor that waits for the whole prefill.
-/

namespace SwarmKV.CodebaseAudit

/-- `kBaseDocPath`. -/
def kBaseDocPath : String := "examples/base_doc.txt"

/-- `kBranchPromptSecurity`. -/
def kBranchPromptSecurity : String := "Summarize security posture."

/-- `kBranchPromptLicense`. -/
def kBranchPromptLicense : String := "Note license obligations."

/-- The context budget check of `main`; the answer is whether `main` goes on. -/
def checkBudget (E : Engine) : Prog Bool :=
  tryCatch
    (match E.readFile kBaseDocPath with
    -- `swarmkv_read_document_file` throws, and `main` prints that
    | .missing => pure false
    | .unreadable => pure false
    | .contents document => do
      let docTokens ← swarmkvTokenizeForBudget E document
      swarmkvValidateContextBudget E (toInt32 docTokens.length)
        [kBranchPromptSecurity, kBranchPromptLicense] kSwarmkvDefaultPipelineCtx
      pure true)
    fun _ => pure false

/-- The graph that `main` builds, behind `validate_acyclic`. -/
def buildGraph : Option (Except Error Orchestrator) :=
  let graph : Except Error Orchestrator := do
    let o ← Orchestrator.empty.addNode "Prefiller" (.prefill ⟨kBaseDocPath⟩)
    let o ← o.addNode "SecurityAuditor" (.analytical ⟨kBranchPromptSecurity, 512⟩)
    let o ← o.addNode "LicenseChecker"
      (.analytical ⟨kBranchPromptLicense, kSwarmkvWaitForPrefillComplete⟩)
    pure ((o.addDependency "Prefiller" "SecurityAuditor").addDependency "Prefiller" "LicenseChecker")
  match graph with
  | .error e => some (.error e)
  | .ok o => o.validateAcyclic.map fun r => r.map fun _ => o

theorem noMilestones_pos : ∀ t ∈ ([] : List Int), 0 < t := by
  simp

/-- The pipeline that `main` executes on `o`, with the canonical buffer from
    `allocate_prefix_cache`. -/
def pipeline (E : Engine) (o : Orchestrator) : Pipeline where
  engine := E
  orchestrator := o
  staging := some (if E.llamaStateGetSize kSwarmkvDefaultPipelineCtx = 0 then 2 ^ 20
    else E.llamaStateGetSize kSwarmkvDefaultPipelineCtx)
  milestones := []
  milestones_pos := noMilestones_pos

/-- The lines that `main` prints. -/
def report (s : PipelineState) : List String :=
  ["Security Audit: " ++ (s.nodeOutputs "SecurityAuditor").getD "",
    "License Check: " ++ (s.nodeOutputs "LicenseChecker").getD ""]

end SwarmKV.CodebaseAudit
