import SwarmKV.Native.Orchestrator
import Mathlib.Order.WellFoundedSet
import Mathlib.Logic.Relation

/-!
# What `validate_acyclic` accepts

The depth-first search colours a node `visited` once everything behind it is. So the
visited nodes, the last one first, form a list in which every edge points to the
right, and a graph with such a list has no cycle.
-/

namespace SwarmKV.Orchestrator

variable (o : Orchestrator)

/-- `n` has `d` as an upstream node. -/
def DependsOn (n d : String) : Prop := d ∈ o.getDependenciesForNode n

/-- No node is upstream of itself. -/
def Acyclic : Prop := ∀ n, ¬ Relation.TransGen o.DependsOn n n

variable {o}

/-! ## Topological orders -/

/-- Every edge out of a node in the list points further to the right. -/
inductive Topological (adj : String → List String) : List String → Prop
  | nil : Topological adj []
  | cons {u : String} {order : List String} (hedges : ∀ v ∈ adj u, v ∈ order)
      (horder : Topological adj order) : Topological adj (u :: order)

/-- There is no infinite path from a node of a topological order. -/
theorem Topological.acc {adj : String → List String} {order : List String}
    (h : Topological adj order) {u : String} (hu : u ∈ order) : Acc (fun v u => v ∈ adj u) u := by
  induction h generalizing u with
  | nil => cases hu
  | cons hedges _ ih =>
    obtain rfl | hu := List.mem_cons.mp hu
    · exact ⟨_, fun v hv => ih (hedges v hv)⟩
    · exact ih hu

/-- A graph whose keys can be sorted has no cycle. -/
theorem acyclic_of_topological {order : List String} (h : Topological o.adj order)
    (hkeys : ∀ u ∈ o.adjKeys, u ∈ order) : o.Acyclic := by
  have hacc : ∀ u, Acc (fun v u => v ∈ o.adj u) u := by
    intro u
    by_cases hu : u ∈ o.adjKeys
    · exact h.acc (hkeys u hu)
    · exact ⟨u, fun v hv => absurd (o.keys u v hv).1 hu⟩
  have hwf : WellFounded (Relation.TransGen fun v u => v ∈ o.adj u) :=
    WellFounded.transGen ⟨hacc⟩
  intro n hn
  have hdep : ∀ a b, o.DependsOn a b → a ∈ o.adj b := fun a b h => (o.transpose b a).mpr h
  exact hwf.irrefl.irrefl n (Relation.TransGen.mono hdep _ _ hn)

/-! ## The search -/

/-- The colours of the search, with the visited nodes in topological order. -/
structure Sorted (o : Orchestrator) (state : String → Color) (order : List String) : Prop where
  visited : ∀ u, state u = .visited ↔ u ∈ order
  topological : Topological o.adj order

/-- What a successful part of the search does: it visits more nodes, and leaves those
    that are being visited. -/
structure Progress (o : Orchestrator) (state : String → Color) (order : List String)
    (state' : String → Color) (order' : List String) : Prop where
  sorted : o.Sorted state' order'
  more : ∀ u ∈ order, u ∈ order'
  visiting : ∀ u, state' u = .visiting ↔ state u = .visiting

variable {state state' state'' : String → Color} {order order' order'' : List String}

theorem Progress.refl (h : o.Sorted state order) : o.Progress state order state order where
  sorted := h
  more _ hu := hu
  visiting _ := Iff.rfl

theorem Progress.trans (h : o.Progress state order state' order')
    (h' : o.Progress state' order' state'' order'') : o.Progress state order state'' order'' where
  sorted := h'.sorted
  more u hu := h'.more u (h.more u hu)
  visiting u := (h'.visiting u).trans (h.visiting u)

/-- The loop over the edges visits all their targets. -/
private theorem visitEdges_progress
    {rec : String → (String → Color) → Option (Except Error (String → Color))}
    (hrec : ∀ v state order state', o.Sorted state order → state v = .unvisited →
      rec v state = some (.ok state') →
      ∃ order', o.Progress state order state' order' ∧ v ∈ order')
    {u : String} {edges : List String} (hs : o.Sorted state order)
    (h : visitEdges rec u edges state = some (.ok state')) :
    ∃ order', o.Progress state order state' order' ∧ ∀ v ∈ edges, v ∈ order' := by
  induction edges generalizing state order with
  | nil =>
    simp only [visitEdges, Option.some.injEq, Except.ok.injEq] at h
    subst h
    exact ⟨order, .refl hs, fun v hv => by cases hv⟩
  | cons v edges ih =>
    unfold visitEdges at h
    split at h
    · simp at h
    · rename_i hv
      obtain ⟨order', hp, hedges⟩ := ih hs h
      refine ⟨order', hp, fun v' hv' => ?_⟩
      obtain rfl | hv' := List.mem_cons.mp hv'
      · exact hp.more _ ((hs.visited _).mp hv)
      · exact hedges v' hv'
    · rename_i hv
      split at h
      · rename_i state₁ h₁
        obtain ⟨order₁, hp₁, hmem⟩ := hrec v state order state₁ hs hv h₁
        obtain ⟨order', hp, hedges⟩ := ih hp₁.sorted h
        refine ⟨order', hp₁.trans hp, fun v' hv' => ?_⟩
        obtain rfl | hv' := List.mem_cons.mp hv'
        · exact hp.more _ hmem
        · exact hedges v' hv'
      · rename_i hne
        exact absurd h (hne state')

/-- The search from an unvisited node visits it. -/
theorem dfs_progress {fuel : Nat} {u : String} (hs : o.Sorted state order)
    (hu : state u = .unvisited) (h : o.dfs fuel u state = some (.ok state')) :
    ∃ order', o.Progress state order state' order' ∧ u ∈ order' := by
  induction fuel generalizing u state order state' with
  | zero => cases h
  | succ fuel ih =>
    unfold dfs at h
    split at h
    · rename_i state₁ h₁
      obtain rfl := Except.ok.inj (Option.some.inj h)
      -- `u` is grey while its edges are followed
      have hnot : u ∉ order := by
        intro hmem
        rw [(hs.visited u).mpr hmem] at hu
        cases hu
      have hgrey : o.Sorted (Function.update state u .visiting) order := by
        refine ⟨fun v => ?_, hs.topological⟩
        by_cases hv : v = u
        · subst hv
          simp [hnot]
        · rw [Function.update_of_ne hv]
          exact hs.visited v
      obtain ⟨order₁, hp, hedges⟩ :=
        visitEdges_progress (fun v s l s' hs hv h => ih hs hv h) hgrey h₁
      have hgrey₁ : state₁ u = .visiting := (hp.visiting u).mpr (Function.update_self _ _ _)
      refine ⟨u :: order₁, ⟨⟨fun v => ?_, .cons hedges hp.sorted.topological⟩, fun v hv => ?_,
        fun v => ?_⟩, List.mem_cons_self⟩
      · by_cases hv : v = u
        · subst hv
          simp
        · rw [Function.update_of_ne hv, hp.sorted.visited, List.mem_cons]
          exact ⟨.inr, fun h => h.resolve_left hv⟩
      · exact List.mem_cons_of_mem _ (hp.more v hv)
      · by_cases hv : v = u
        · subst hv
          simp [hu]
        · rw [Function.update_of_ne hv, hp.visiting, Function.update_of_ne hv]
    · rename_i hne
      exact absurd h (hne _)

/-- The loop over the keys visits all of them. -/
private theorem visitKeys_progress {fuel : Nat} {keys : List String} (hs : o.Sorted state order)
    (hclear : ∀ u, state u ≠ .visiting)
    (h : o.visitKeys fuel keys state = some (.ok state')) :
    ∃ order', o.Progress state order state' order' ∧ ∀ u ∈ keys, u ∈ order' := by
  induction keys generalizing state order with
  | nil =>
    simp only [visitKeys, Option.some.injEq, Except.ok.injEq] at h
    subst h
    exact ⟨order, .refl hs, fun u hu => by cases hu⟩
  | cons u keys ih =>
    unfold visitKeys at h
    split at h
    · rename_i hu
      split at h
      · rename_i state₁ h₁
        obtain ⟨order₁, hp₁, hmem⟩ := dfs_progress hs hu h₁
        have hclear₁ : ∀ v, state₁ v ≠ .visiting := fun v hv => hclear v ((hp₁.visiting v).mp hv)
        obtain ⟨order', hp, hkeys⟩ := ih hp₁.sorted hclear₁ h
        refine ⟨order', hp₁.trans hp, fun v hv => ?_⟩
        obtain rfl | hv := List.mem_cons.mp hv
        · exact hp.more _ hmem
        · exact hkeys v hv
      · rename_i hne
        exact absurd h (hne state')
    · rename_i hne
      have hu : state u = .visited := by
        cases hc : state u with
        | unvisited => exact absurd hc hne
        | visiting => exact absurd hc (hclear u)
        | visited => rfl
      obtain ⟨order', hp, hkeys⟩ := ih hs hclear h
      refine ⟨order', hp, fun v hv => ?_⟩
      obtain rfl | hv := List.mem_cons.mp hv
      · exact hp.more _ ((hs.visited _).mp hu)
      · exact hkeys v hv

/-- A graph that `validate_acyclic` accepts has no cycle. -/
theorem acyclic_of_validateAcyclic (h : o.validateAcyclic = some (.ok ())) : o.Acyclic := by
  unfold validateAcyclic at h
  obtain ⟨r, hr, hok⟩ := Option.map_eq_some_iff.mp h
  cases r with
  | error e => cases hok
  | ok state =>
    have hstart : o.Sorted (fun _ => .unvisited) [] := ⟨fun u => by simp, .nil⟩
    obtain ⟨order, hp, hkeys⟩ := visitKeys_progress hstart (fun u hu => by cases hu) hr
    exact acyclic_of_topological hp.sorted.topological hkeys

/-- Among finitely many nodes, one has no upstream node among them, directly or not. -/
theorem Acyclic.exists_minimal (h : o.Acyclic) {P : String → Prop} {S : List String}
    (hS : ∀ m, P m → m ∈ S) {n : String} (hn : P n) :
    ∃ m, P m ∧ ∀ d, P d → ¬ Relation.TransGen o.DependsOn m d := by
  have : IsStrictOrder String fun d m => Relation.TransGen o.DependsOn m d := {
    irrefl := h
    trans := fun _ _ _ hab hbc => hbc.trans hab }
  have hwf : {m | P m}.WellFoundedOn fun d m => Relation.TransGen o.DependsOn m d :=
    ((List.finite_toSet S).subset hS).wellFoundedOn
  obtain ⟨m, -, hmin⟩ := hwf.has_min Set.univ ⟨⟨n, hn⟩, trivial⟩
  exact ⟨m, m.2, fun d hd => hmin ⟨d, hd⟩ trivial⟩

end SwarmKV.Orchestrator
