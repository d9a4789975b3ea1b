import SwarmKV.Native.Orchestrator
import SwarmKV.Spec.Prefix
import Mathlib.Logic.Relation

/-!
# The graph of a pipeline

What properties of a run say about the nodes: which of them are prefill
providers, which watermarks the branches wait for, by what a node is gated, and
what the registration loop makes of that.
-/

namespace SwarmKV

namespace Orchestrator

variable (o : Orchestrator)

/-- The node is a prefill provider. -/
def isPrefill (name : String) : Bool := (o.node name).elim false Node.isPrefillProvider

/-- The `required_prefix_tokens` of a node. -/
def req (name : String) : Int :=
  (o.node name).elim kSwarmkvWaitForPrefillComplete Node.requiredPrefixTokens

/-- `name` is the only prefill provider. -/
def Sole (name : String) : Prop :=
  o.isPrefill name ∧ ∀ n, o.isPrefill n → n = name

/-- The upstream nodes whose end a node waits for: all but the prefill providers
    when it is gated by the watermark. -/
def completionDeps (name : String) : List String :=
  (o.getDependenciesForNode name).filter fun d => !(o.isPrefill d && decide (o.req name ≥ 0))

/-- All upstream nodes of `name` are registered. -/
def DepsRegistered (name : String) : Prop := ∀ d ∈ o.getDependenciesForNode name, d ∈ o.names

/-- The branches that fork at watermark `t`. -/
def branchesAt (t : Int) : List String :=
  (o.nodes.filter fun p => p.2.requiredPrefixTokens = t).map Prod.fst

/-- Some branch forks at watermark `t`. -/
def HasConsumers (t : Int) : Prop := 0 < t ∧ o.branchesAt t ≠ []

/-- Nothing that a branch waits for, directly or not, waits for more of the prefill
    of `p` than the branch itself. -/
def ForksInTime (p : String) : Prop :=
  ∀ b ∈ o.names, 0 < o.req b → ∀ m, Relation.ReflTransGen (fun n d => d ∈ o.completionDeps n) b m →
    p ∈ o.getDependenciesForNode m → 0 ≤ o.req m ∧ o.req m ≤ o.req b

instance (t : Int) : Decidable (o.HasConsumers t) := inferInstanceAs (Decidable (_ ∧ _))

variable {o}

private theorem lookup_of_mem {l : List (String × Node)} (hl : (l.map Prod.fst).Nodup)
    {name : String} {node : Node} (h : (name, node) ∈ l) : l.lookup name = some node := by
  induction l with
  | nil => cases h
  | cons p l ih =>
    rw [List.map_cons, List.nodup_cons] at hl
    rcases List.mem_cons.mp h with rfl | h
    · simp
    · have hne : name ≠ p.1 := by
        intro heq
        exact hl.1 (List.mem_map.mpr ⟨_, h, heq⟩)
      rw [List.lookup_cons, beq_false_of_ne hne]
      exact ih hl.2 h

private theorem mem_of_lookup {l : List (String × Node)} {name : String} {node : Node}
    (h : l.lookup name = some node) : (name, node) ∈ l := by
  induction l with
  | nil => cases h
  | cons p l ih =>
    rw [List.lookup_cons] at h
    split at h
    · rename_i heq
      obtain rfl := Option.some.inj h
      obtain rfl := eq_of_beq heq
      exact List.mem_cons_self
    · exact List.mem_cons_of_mem _ (ih h)

theorem node_eq_some {name : String} {node : Node} :
    o.node name = some node ↔ (name, node) ∈ o.nodes :=
  ⟨mem_of_lookup, lookup_of_mem o.nodup⟩

theorem mem_names {name : String} : name ∈ o.names ↔ ∃ node, o.node name = some node := by
  simp only [names, List.mem_map, node_eq_some, Prod.exists, exists_and_right, exists_eq_right]

theorem mem_branchesAt {name : String} {t : Int} :
    name ∈ o.branchesAt t ↔ name ∈ o.names ∧ o.req name = t := by
  simp only [branchesAt, List.mem_map, List.mem_filter, decide_eq_true_eq, Prod.exists,
    exists_and_right, exists_eq_right, mem_names]
  constructor
  · intro h
    obtain ⟨node, h, hreq⟩ := h
    have hnode := node_eq_some.mpr h
    exact ⟨⟨node, hnode⟩, by simp [req, hnode, hreq]⟩
  · intro h
    obtain ⟨⟨node, hnode⟩, hreq⟩ := h
    exact ⟨node, node_eq_some.mp hnode, by simpa [req, hnode] using hreq⟩

theorem branchesAt_nodup (t : Int) : (o.branchesAt t).Nodup :=
  o.nodup.sublist (List.filter_sublist.map _)

/-- A branch is a consumer of its own watermark. -/
theorem hasConsumers_req {name : String} (h : name ∈ o.names) (hr : 0 < o.req name) :
    o.HasConsumers (o.req name) :=
  ⟨hr, List.ne_nil_of_mem (mem_branchesAt.mpr ⟨h, rfl⟩)⟩

theorem mem_names_of_isPrefill {name : String} (h : o.isPrefill name) : name ∈ o.names := by
  rw [mem_names]
  cases hn : o.node name with
  | none => simp [isPrefill, hn] at h
  | some node => exact ⟨node, rfl⟩

theorem req_of_isPrefill {name : String} (h : o.isPrefill name) : o.req name = -1 := by
  cases hn : o.node name with
  | none => simp [isPrefill, hn] at h
  | some node =>
    cases node with
    | prefill p => simp [req, hn, Node.requiredPrefixTokens, kSwarmkvWaitForPrefillComplete]
    | analytical a => simp [isPrefill, hn, Node.isPrefillProvider] at h

theorem mem_completionDeps {name d : String} : d ∈ o.completionDeps name ↔
    d ∈ o.getDependenciesForNode name ∧ ¬ (o.isPrefill d ∧ 0 ≤ o.req name) := by
  rw [completionDeps, List.mem_filter]
  simp only [ge_iff_le, Bool.not_eq_true', Bool.and_eq_false_iff, decide_eq_false_iff_not,
    Bool.not_eq_true, not_and_or]

instance (p : String) : Decidable (o.Sole p) :=
  decidable_of_iff (o.isPrefill p ∧ ∀ n ∈ o.names, o.isPrefill n → n = p)
    ⟨fun h => ⟨h.1, fun n hn => h.2 n (mem_names_of_isPrefill hn) hn⟩,
      fun h => ⟨h.1, fun n _ => h.2 n⟩⟩

instance (name : String) : Decidable (o.DepsRegistered name) :=
  inferInstanceAs (Decidable (∀ d ∈ o.getDependenciesForNode name, d ∈ o.names))

/-! ## Registration -/

/-- What the registration loop leaves in the blackboard. -/
structure Registered (nodes : List (String × Node)) (s s' : PipelineState) : Prop where
  milestones : ∀ t, t ∈ s'.snapshotMilestones ↔
    t ∈ s.snapshotMilestones ∨ 0 < t ∧ ∃ p ∈ nodes, p.2.requiredPrefixTokens = t
  consumers : ∀ t, s'.milestoneConsumersRemaining t =
    if 0 < t ∧ nodes.filter (fun p => p.2.requiredPrefixTokens = t) ≠ [] then
      some ((s.milestoneConsumersRemaining t).getD 0 +
        (nodes.filter fun p => p.2.requiredPrefixTokens = t).length)
    else s.milestoneConsumersRemaining t
  rest : s' = { s with
    snapshotMilestones := s'.snapshotMilestones
    milestoneConsumersRemaining := s'.milestoneConsumersRemaining }

theorem Registered.nil (s : PipelineState) : Registered [] s s where
  milestones := by simp
  consumers := by simp
  rest := rfl

theorem Registered.skip {p : String × Node} {nodes : List (String × Node)} {s s' : PipelineState}
    (hp : ¬ 0 < p.2.requiredPrefixTokens) (h : Registered nodes s s') :
    Registered (p :: nodes) s s' where
  milestones := by
    intro t
    rw [h.milestones, List.exists_mem_cons_iff]
    constructor
    · rintro (h | ⟨h, hq⟩)
      · exact .inl h
      · exact .inr ⟨h, .inr hq⟩
    · rintro (h | ⟨h, hq | hq⟩)
      · exact .inl h
      · omega
      · exact .inr ⟨h, hq⟩
  consumers := by
    intro t
    rw [h.consumers]
    by_cases ht : 0 < t
    · have hne : p.2.requiredPrefixTokens ≠ t := by omega
      rw [List.filter_cons_of_neg (by simpa using hne)]
    · simp [ht]
  rest := h.rest

theorem Registered.branch {p : String × Node} {nodes : List (String × Node)}
    {s s₁ s' : PipelineState} (hp : 0 < p.2.requiredPrefixTokens)
    (hs : s.registerSnapshotMilestone p.2.requiredPrefixTokens = .ok s₁)
    (h : Registered nodes (s₁.registerMilestoneConsumer p.2.requiredPrefixTokens) s') :
    Registered (p :: nodes) s s' := by
  have hle : ¬ p.2.requiredPrefixTokens ≤ 0 := by omega
  simp only [PipelineState.registerSnapshotMilestone, hle, if_false, Except.ok.injEq] at hs
  subst hs
  simp only [PipelineState.registerMilestoneConsumer, hle, if_false] at h
  constructor
  · intro t
    rw [h.milestones, List.exists_mem_cons_iff, List.mem_insert_iff]
    constructor
    · rintro ((rfl | h) | ⟨h, hq⟩)
      · exact .inr ⟨hp, .inl rfl⟩
      · exact .inl h
      · exact .inr ⟨h, .inr hq⟩
    · rintro (h | ⟨h, rfl | hq⟩)
      · exact .inl (.inr h)
      · exact .inl (.inl rfl)
      · exact .inr ⟨h, hq⟩
  · intro t
    rw [h.consumers]
    by_cases ht : p.2.requiredPrefixTokens = t
    · subst ht
      simp only [Function.update_self, Option.getD_some, List.filter_cons, decide_true, if_true,
        hp, true_and, ne_eq, reduceCtorEq, not_false_eq_true, List.length_cons]
      split
      · congr 1; omega
      · rename_i hnil
        rw [not_not] at hnil
        simp [hnil]
    · rw [List.filter_cons_of_neg (by simpa using ht)]
      simp only [Function.update_of_ne (Ne.symm ht)]
  · rw [h.rest]

/-- The registration loop does not fail. -/
theorem registerBranches_registered (nodes : List (String × Node)) (s : PipelineState) :
    ∃ s', registerBranches nodes s = .ok s' ∧ Registered nodes s s' := by
  induction nodes generalizing s with
  | nil => exact ⟨s, rfl, .nil s⟩
  | cons p nodes ih =>
    unfold registerBranches
    dsimp only
    split
    · rename_i hw
      have hle : ¬ p.2.requiredPrefixTokens ≤ 0 := by omega
      cases hs : s.registerSnapshotMilestone p.2.requiredPrefixTokens with
      | error e => simp [PipelineState.registerSnapshotMilestone, hle] at hs
      | ok s₁ =>
        obtain ⟨s', hs', hr⟩ := ih (s₁.registerMilestoneConsumer p.2.requiredPrefixTokens)
        exact ⟨s', hs', hr.branch hw hs⟩
    · rename_i hw
      obtain ⟨s', hs', hr⟩ := ih s
      exact ⟨s', hs', hr.skip hw⟩

end Orchestrator

namespace Pipeline

variable (cfg : Pipeline)

/-- The tokens of the document of a prefill provider. -/
def doc (name : String) : List LlamaToken :=
  match cfg.orchestrator.node name with
  | some (.prefill p) => (documentTokens cfg.engine p.sourceDocumentPath).getD []
  | _ => []

/-- The tokens of the prompt of a branch. -/
def prompt (name : String) : List LlamaToken :=
  match cfg.orchestrator.node name with
  | some (.analytical a) => (tokensOf cfg.engine a.branchPrompt).getD []
  | _ => []

theorem registeredState_registered :
    Orchestrator.Registered cfg.orchestrator.nodes cfg.freshState cfg.registeredState := by
  obtain ⟨s', hs', hr⟩ :=
    Orchestrator.registerBranches_registered cfg.orchestrator.nodes cfg.freshState
  unfold registeredState
  rw [hs']
  exact hr

/-- `t` is a milestone: one that the caller has registered, or the watermark of a
    branch. -/
def IsMilestone (t : Int) : Prop := t ∈ cfg.milestones ∨ cfg.orchestrator.HasConsumers t

instance (t : Int) : Decidable (cfg.IsMilestone t) := inferInstanceAs (Decidable (_ ∨ _))

variable {cfg} in
theorem IsMilestone.pos {t : Int} (h : cfg.IsMilestone t) : 0 < t := by
  rcases h with h | h
  · exact cfg.milestones_pos t h
  · exact h.1

/-- The registration loop registers the milestones. -/
theorem mem_registeredMilestones {t : Int} :
    t ∈ cfg.registeredState.snapshotMilestones ↔ cfg.IsMilestone t := by
  rw [cfg.registeredState_registered.milestones]
  have hfresh : t ∈ cfg.freshState.snapshotMilestones ↔ t ∈ cfg.milestones := Iff.rfl
  have hbranch : (0 < t ∧ ∃ p ∈ cfg.orchestrator.nodes, p.2.requiredPrefixTokens = t) ↔
      cfg.orchestrator.HasConsumers t := by
    simp only [Orchestrator.HasConsumers, Orchestrator.branchesAt, ne_eq, List.map_eq_nil_iff,
      List.filter_eq_nil_iff, decide_eq_true_eq]
    push Not
    rfl
  rw [hfresh, hbranch]
  rfl

end Pipeline

end SwarmKV
