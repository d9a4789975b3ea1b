import SwarmKV.Spec.Acyclic
import Mathlib.Data.Finset.Card

/-!
# What `validate_acyclic` decides

Besides being sound, the depth-first search is total and complete: it never runs out
of fuel, and the edge that it reports closes a cycle. It reads `adj` with `operator[]`,
which inserts an absent key, but it only ever asks for keys that are there.
-/

namespace SwarmKV.Orchestrator

variable {o : Orchestrator} {state state' : String → Color} {order order' : List String}
  {u v : String} {fuel : Nat}

/-! ## Fuel -/

/-- The keys that the search has not visited yet. -/
def unvisited (o : Orchestrator) (state : String → Color) : Finset String :=
  o.adjKeys.toFinset.filter fun u => state u = .unvisited

theorem mem_unvisited : u ∈ o.unvisited state ↔ u ∈ o.adjKeys ∧ state u = .unvisited := by
  simp [unvisited]

/-- The search does not make a visited node unvisited. -/
theorem Progress.unvisited_subset (hs : o.Sorted state order)
    (hp : o.Progress state order state' order') : o.unvisited state' ⊆ o.unvisited state := by
  intro u hu
  obtain ⟨hkey, hun⟩ := mem_unvisited.mp hu
  refine mem_unvisited.mpr ⟨hkey, ?_⟩
  cases hc : state u with
  | unvisited => rfl
  | visiting =>
    have hgrey := (hp.visiting u).mpr hc
    rw [hun] at hgrey
    cases hgrey
  | visited =>
    have hblack := (hp.sorted.visited u).mpr (hp.more u ((hs.visited u).mp hc))
    rw [hun] at hblack
    cases hblack

/-- Visiting an unvisited key leaves fewer of them. -/
theorem card_unvisited_visiting (hkey : u ∈ o.adjKeys) (hu : state u = .unvisited) :
    (o.unvisited (Function.update state u .visiting)).card < (o.unvisited state).card := by
  refine Finset.card_lt_card ⟨fun w hw => ?_, fun hsub => ?_⟩
  · obtain ⟨hw, hc⟩ := mem_unvisited.mp hw
    by_cases hwu : w = u
    · subst hwu
      rw [Function.update_self] at hc
      cases hc
    · rw [Function.update_of_ne hwu] at hc
      exact mem_unvisited.mpr ⟨hw, hc⟩
  · -- `u` itself is not unvisited any more
    have hmem := (mem_unvisited.mp (hsub (mem_unvisited.mpr ⟨hkey, hu⟩))).2
    rw [Function.update_self] at hmem
    cases hmem

/-- A node being visited is in no list of visited nodes. -/
theorem Sorted.visiting (hs : o.Sorted state order) (hu : state u = .unvisited) :
    o.Sorted (Function.update state u .visiting) order := by
  refine ⟨fun w => ?_, hs.topological⟩
  by_cases hw : w = u
  · subst hw
    rw [Function.update_self, ← hs.visited, hu]
    exact iff_of_false (by decide) (by decide)
  · rw [Function.update_of_ne hw]
    exact hs.visited w

/-- The loop over the edges does not run out of fuel if the search behind it does not. -/
private theorem visitEdges_total {edges : List String}
    (hrec : ∀ v state order, o.Sorted state order → v ∈ o.adjKeys → state v = .unvisited →
      (o.unvisited state).card ≤ fuel → o.dfs fuel v state ≠ none)
    (hs : o.Sorted state order) (hedges : ∀ v ∈ edges, v ∈ o.adjKeys)
    (hfuel : (o.unvisited state).card ≤ fuel) : visitEdges (o.dfs fuel) u edges state ≠ none := by
  induction edges generalizing state order with
  | nil => exact Option.some_ne_none _
  | cons v edges ih =>
    have hrest : ∀ v ∈ edges, v ∈ o.adjKeys := fun v hv => hedges v (List.mem_cons_of_mem _ hv)
    unfold visitEdges
    split
    · exact Option.some_ne_none _
    · exact ih hs hrest hfuel
    · rename_i hv
      have hdfs := hrec v state order hs (hedges v List.mem_cons_self) hv hfuel
      split
      · rename_i state₁ h₁
        obtain ⟨order₁, hp, -⟩ := dfs_progress hs hv h₁
        have hle := Finset.card_le_card (Progress.unvisited_subset hs hp)
        exact ih hp.sorted hrest (by omega)
      · exact hdfs

/-- The search from a key ends if there is fuel for each unvisited key. -/
theorem dfs_total (hs : o.Sorted state order) (hkey : u ∈ o.adjKeys) (hu : state u = .unvisited)
    (hfuel : (o.unvisited state).card ≤ fuel) : o.dfs fuel u state ≠ none := by
  induction fuel generalizing u state order with
  | zero =>
    have hempty := Finset.card_eq_zero.mp (Nat.le_zero.mp hfuel)
    have hmem : u ∈ o.unvisited state := mem_unvisited.mpr ⟨hkey, hu⟩
    rw [hempty] at hmem
    exact absurd hmem (Finset.notMem_empty u)
  | succ fuel ih =>
    have hlt := card_unvisited_visiting hkey hu
    have hedges := visitEdges_total (u := u)
      (fun v s order hs hkey hv hle => ih hs hkey hv hle) (hs.visiting hu)
      (fun v (hv : v ∈ o.adj u) => (o.keys u v hv).2) (by omega)
    unfold dfs
    split
    · exact Option.some_ne_none _
    · exact hedges

/-! ## Cycles -/

/-- There is a path along the edges. -/
abbrev Path (o : Orchestrator) (u v : String) : Prop := Relation.ReflTransGen (fun a b => b ∈ o.adj a) u v

/-- The exception names an edge on a cycle. -/
def ReportsCycle (o : Orchestrator) (e : Error) : Prop :=
  ∃ u v, e = .cycle u v ∧ v ∈ o.adj u ∧ o.Path v u

/-- The loop over the edges of `u` reports a cycle, if every node being visited leads to `u`. -/
private theorem visitEdges_error {edges : List String} {e : Error}
    (hrec : ∀ v state order e, o.Sorted state order → state v = .unvisited →
      (∀ w, state w = .visiting → o.Path w v) → o.dfs fuel v state = some (.error e) →
      o.ReportsCycle e)
    (hs : o.Sorted state order) (hgrey : ∀ w, state w = .visiting → o.Path w u)
    (hedges : ∀ v ∈ edges, v ∈ o.adj u)
    (h : visitEdges (o.dfs fuel) u edges state = some (.error e)) : o.ReportsCycle e := by
  induction edges generalizing state order with
  | nil => cases h
  | cons v edges ih =>
    have hedge := hedges v List.mem_cons_self
    have hrest : ∀ v ∈ edges, v ∈ o.adj u := fun v hv => hedges v (List.mem_cons_of_mem _ hv)
    unfold visitEdges at h
    split at h
    · -- a back edge
      rename_i hv
      obtain rfl := Except.error.inj (Option.some.inj h)
      exact ⟨u, v, rfl, hedge, hgrey v hv⟩
    · exact ih hs hgrey hrest h
    · rename_i hv
      split at h
      · rename_i state₁ h₁
        -- `v` has been finished, and the same nodes are being visited
        obtain ⟨order₁, hp, -⟩ := dfs_progress hs hv h₁
        exact ih hp.sorted (fun w hw => hgrey w ((hp.visiting w).mp hw)) hrest h
      · exact hrec v state order e hs hv (fun w hw => (hgrey w hw).tail hedge) h

/-- The search reports a cycle, if every node being visited leads to where it starts. -/
theorem dfs_error {e : Error} (hs : o.Sorted state order) (hu : state u = .unvisited)
    (hgrey : ∀ w, state w = .visiting → o.Path w u) (h : o.dfs fuel u state = some (.error e)) :
    o.ReportsCycle e := by
  induction fuel generalizing u state order e with
  | zero => cases h
  | succ fuel ih =>
    unfold dfs at h
    split at h
    · cases h
    · refine visitEdges_error (fun v s order e hs hv hg h => ih hs hv hg h) (hs.visiting hu)
        (fun w hw => ?_) (fun v hv => hv) h
      -- `u` itself is visited now
      by_cases hwu : w = u
      · subst hwu
        exact .refl
      · rw [Function.update_of_ne hwu] at hw
        exact hgrey w hw

/-- The loop over the keys ends, and reports only cycles. -/
private theorem visitKeys_result {keys : List String} (hs : o.Sorted state order)
    (hclear : ∀ w, state w ≠ .visiting) (hkeys : ∀ u ∈ keys, u ∈ o.adjKeys)
    (hfuel : (o.unvisited state).card ≤ fuel) :
    (∃ state', o.visitKeys fuel keys state = some (.ok state')) ∨
      ∃ e, o.visitKeys fuel keys state = some (.error e) ∧ o.ReportsCycle e := by
  induction keys generalizing state order with
  | nil => exact .inl ⟨state, rfl⟩
  | cons u keys ih =>
    have hrest : ∀ u ∈ keys, u ∈ o.adjKeys := fun u hu => hkeys u (List.mem_cons_of_mem _ hu)
    unfold visitKeys
    split
    · rename_i hu
      have htotal := dfs_total hs (hkeys u List.mem_cons_self) hu hfuel
      cases hr : o.dfs fuel u state with
      | none => exact absurd hr htotal
      | some r =>
        cases r with
        | error e => exact .inr ⟨e, rfl, dfs_error hs hu (fun w hw => absurd hw (hclear w)) hr⟩
        | ok state₁ =>
          -- the fuel is enough for the rest, too
          obtain ⟨order₁, hp, -⟩ := dfs_progress hs hu hr
          have hle := Finset.card_le_card (Progress.unvisited_subset hs hp)
          exact ih hp.sorted (fun w hw => hclear w ((hp.visiting w).mp hw)) hrest (by omega)
    · exact ih hs hclear hrest hfuel

/-- `validate_acyclic` accepts, or reports an edge on a cycle. -/
theorem validateAcyclic_result (o : Orchestrator) : o.validateAcyclic = some (.ok ()) ∨
    ∃ e, o.validateAcyclic = some (.error e) ∧ o.ReportsCycle e := by
  have hstart : o.Sorted (fun _ => .unvisited) [] := ⟨fun u => by simp, .nil⟩
  have hfuel : (o.unvisited fun _ => .unvisited).card ≤ o.adjKeys.length + 1 := by
    calc (o.unvisited fun _ => .unvisited).card
        ≤ o.adjKeys.toFinset.card := Finset.card_filter_le _ _
      _ ≤ o.adjKeys.length := List.toFinset_card_le _
      _ ≤ o.adjKeys.length + 1 := Nat.le_succ _
  unfold validateAcyclic
  obtain ⟨state, hr⟩ | ⟨e, hr, he⟩ :=
    visitKeys_result hstart (fun w hw => by cases hw) (fun u hu => hu) hfuel
  · exact .inl (by rw [hr]; rfl)
  · exact .inr ⟨e, by rw [hr]; rfl, he⟩

/-- A reported cycle is one of upstream nodes. -/
theorem ReportsCycle.not_acyclic {e : Error} (h : o.ReportsCycle e) : ¬ o.Acyclic := by
  obtain ⟨u, v, -, hedge, hpath⟩ := h
  intro hacyclic
  have hcycle : Relation.TransGen (fun a b => b ∈ o.adj a) u u := .head' hedge hpath
  have hswap : Relation.TransGen o.DependsOn u u := by
    refine Relation.transGen_swap.mp (Relation.TransGen.mono (fun a b hab => ?_) _ _ hcycle)
    exact (o.transpose a b).mp hab
  exact hacyclic u hswap

/-- `validate_acyclic` accepts exactly the acyclic graphs. -/
theorem validateAcyclic_ok_iff : o.validateAcyclic = some (.ok ()) ↔ o.Acyclic := by
  refine ⟨acyclic_of_validateAcyclic, fun hacyclic => ?_⟩
  obtain hok | ⟨e, -, he⟩ := o.validateAcyclic_result
  · exact hok
  · exact absurd hacyclic he.not_acyclic

/-! ## The keys of `adj` -/

/-- A part of the search, with the keys of `adj` after it. -/
abbrev Search := Option (Except Error (String → Color) × List String)

/-- `visitEdges`, with the keys of `adj` threaded through. -/
def visitEdgesKeys (dfs : String → (String → Color) → List String → Search) (u : String) :
    List String → (String → Color) → List String → Search
  | [], state, keys => some (.ok state, keys)
  | v :: rest, state, keys =>
    match state v with
    | .visiting => some (.error (.cycle u v), keys)
    | .visited => visitEdgesKeys dfs u rest state keys
    | .unvisited =>
      match dfs v state keys with
      | some (.ok state, keys) => visitEdgesKeys dfs u rest state keys
      | r => r

/-- `dfs`, with the key that `adj[u]` inserts when it is absent. -/
def dfsKeys (o : Orchestrator) : Nat → String → (String → Color) → List String → Search
  | 0, _, _, _ => none
  | fuel + 1, u, state, keys =>
    match visitEdgesKeys (o.dfsKeys fuel) u (o.adj u) (Function.update state u .visiting)
        (keys.insert u) with
    | some (.ok state, keys) => some (.ok (Function.update state u .visited), keys)
    | r => r

/-- The loop over the keys: each of them is looked at, and none is added meanwhile. -/
def visitKeysKeys (o : Orchestrator) (fuel : Nat) :
    List String → (String → Color) → List String → Search
  | [], state, keys => some (.ok state, keys)
  | u :: rest, state, keys =>
    match state u with
    | .unvisited =>
      match o.dfsKeys fuel u state keys with
      | some (.ok state, keys) => o.visitKeysKeys fuel rest state keys
      | r => r
    | _ => o.visitKeysKeys fuel rest state keys

/-- `validate_acyclic` with the keys of `adj` after it. -/
def validateAcyclicKeys (o : Orchestrator) : Option (Except Error Unit × List String) :=
  (o.visitKeysKeys (o.adjKeys.length + 1) o.adjKeys (fun _ => .unvisited) o.adjKeys).map
    fun r => (r.1.map fun _ => (), r.2)

/-- Over edges to keys, the search leaves the keys alone. -/
private theorem visitEdgesKeys_eq {keys edges : List String}
    (hrec : ∀ v state, v ∈ keys →
      o.dfsKeys fuel v state keys = (o.dfs fuel v state).map (·, keys))
    (hedges : ∀ v ∈ edges, v ∈ keys) : visitEdgesKeys (o.dfsKeys fuel) u edges state keys =
      (visitEdges (o.dfs fuel) u edges state).map (·, keys) := by
  induction edges generalizing state with
  | nil => rfl
  | cons v edges ih =>
    have hrest : ∀ v ∈ edges, v ∈ keys := fun v hv => hedges v (List.mem_cons_of_mem _ hv)
    cases hv : state v with
    | visiting => simp only [visitEdgesKeys, visitEdges, hv, Option.map_some]
    | visited =>
      simp only [visitEdgesKeys, visitEdges, hv]
      exact ih hrest
    | unvisited =>
      simp only [visitEdgesKeys, visitEdges, hv, hrec v state (hedges v List.mem_cons_self)]
      cases o.dfs fuel v state with
      | none => rfl
      | some r =>
        cases r with
        | error e => rfl
        | ok state₁ => exact ih hrest

/-- From a key, the search leaves the keys alone. -/
private theorem dfsKeys_eq (hkey : u ∈ o.adjKeys) :
    o.dfsKeys fuel u state o.adjKeys = (o.dfs fuel u state).map (·, o.adjKeys) := by
  induction fuel generalizing u state with
  | zero => rfl
  | succ fuel ih =>
    have hedges : visitEdgesKeys (o.dfsKeys fuel) u (o.adj u) (Function.update state u .visiting)
        o.adjKeys = (visitEdges (o.dfs fuel) u (o.adj u) (Function.update state u .visiting)).map
          (·, o.adjKeys) :=
      visitEdgesKeys_eq (fun v s hv => ih hv) fun v hv => (o.keys u v hv).2
    unfold dfsKeys dfs
    rw [List.insert_of_mem hkey, hedges]
    cases visitEdges (o.dfs fuel) u (o.adj u) (Function.update state u .visiting) with
    | none => rfl
    | some r => cases r <;> rfl

/-- The loop over the keys leaves them alone. -/
private theorem visitKeysKeys_eq {keys : List String} (hkeys : ∀ u ∈ keys, u ∈ o.adjKeys) :
    o.visitKeysKeys fuel keys state o.adjKeys =
      (o.visitKeys fuel keys state).map (·, o.adjKeys) := by
  induction keys generalizing state with
  | nil => rfl
  | cons u keys ih =>
    have hrest : ∀ u ∈ keys, u ∈ o.adjKeys := fun u hu => hkeys u (List.mem_cons_of_mem _ hu)
    cases hu : state u with
    | visiting =>
      simp only [visitKeysKeys, visitKeys, hu]
      exact ih hrest
    | visited =>
      simp only [visitKeysKeys, visitKeys, hu]
      exact ih hrest
    | unvisited =>
      simp only [visitKeysKeys, visitKeys, hu, dfsKeys_eq (hkeys u List.mem_cons_self)]
      cases o.dfs fuel u state with
      | none => rfl
      | some r =>
        cases r with
        | error e => rfl
        | ok state₁ => exact ih hrest

/-- `validate_acyclic` inserts no key into `adj`. -/
theorem validateAcyclicKeys_eq (o : Orchestrator) :
    o.validateAcyclicKeys = o.validateAcyclic.map (·, o.adjKeys) := by
  unfold validateAcyclicKeys validateAcyclic
  rw [visitKeysKeys_eq fun u hu => hu]
  cases o.visitKeys (o.adjKeys.length + 1) o.adjKeys fun _ => .unvisited <;> rfl

/-! ## The verdict -/

/-- `validate_acyclic` ends, accepts exactly the acyclic graphs, reports an edge on a cycle
    otherwise, and leaves `adj` as it was; a graph with the same edges gets the same
    verdict, whatever the order of its keys and of its edges. -/
theorem validateAcyclic_decides (o : Orchestrator) :
    o.validateAcyclic ≠ none ∧ (o.validateAcyclic = some (.ok ()) ↔ o.Acyclic) ∧
      (∀ e, o.validateAcyclic = some (.error e) → o.ReportsCycle e) ∧
      o.validateAcyclicKeys = o.validateAcyclic.map (·, o.adjKeys) ∧
      ∀ o' : Orchestrator, (∀ u v, v ∈ o'.adj u ↔ v ∈ o.adj u) →
        (o'.validateAcyclic = some (.ok ()) ↔ o.validateAcyclic = some (.ok ())) := by
  refine ⟨?_, validateAcyclic_ok_iff, fun e he => ?_, o.validateAcyclicKeys_eq, fun o' hadj => ?_⟩
  · obtain hok | ⟨e, he, -⟩ := o.validateAcyclic_result
    · simp [hok]
    · simp [he]
  · obtain hok | ⟨e', he', hcycle⟩ := o.validateAcyclic_result
    · rw [hok] at he
      cases he
    · rw [he'] at he
      obtain rfl := Except.error.inj (Option.some.inj he)
      exact hcycle
  · -- both graphs have the same upstream nodes
    have hdep : o'.DependsOn = o.DependsOn := by
      funext n d
      show (d ∈ o'.revAdj n) = (d ∈ o.revAdj n)
      rw [← propext (o'.transpose d n), ← propext (o.transpose d n), propext (hadj d n)]
    rw [validateAcyclic_ok_iff, validateAcyclic_ok_iff]
    unfold Acyclic
    rw [hdep]

end SwarmKV.Orchestrator
