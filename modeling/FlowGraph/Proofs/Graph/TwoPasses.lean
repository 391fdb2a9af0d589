import FlowGraph.Proofs.Graph.DepthFirst

/-!
The test for cycles as two passes over a graph, each with a stack of its own. The first pass finishes the
vertices along the arcs: a vertex stays on the stack below those that follow it, and is finished when it is on
top for the second time. One that was pushed by several others, or by one of them along several arcs, stands
on the stack that often. The second pass walks against the arcs, from every vertex in the reverse order of
finishing, and visits no vertex twice; as long as there is no cycle each walk has nothing but its first vertex
to visit. What it reports is the second vertex of the first walk that goes on.

That is what `Digraph.culprit?` finds. Of several arcs the oldest one leads to the top of the stack, so the
first pass enters vertices in the order in which `explore` does; and a vertex that is found entered when it is
on top is either the one that was entered there, or finished.
-/

namespace FlowGraph.Graph

variable {α : Type} [DecidableEq α]

/-- Where every step has at most one outcome, a run has one end. -/
theorem halted_unique {σ : Type} {step : σ → Option σ} {s a b : σ}
    (ha : Relation.ReflTransGen (fun p q => step p = some q) s a)
    (hb : Relation.ReflTransGen (fun p q => step p = some q) s b)
    (hhalta : step a = none) (hhaltb : step b = none) : a = b := by
  have hunique : Relator.RightUnique fun p q => step p = some q :=
    fun _ _ _ hq hr => Option.some.inj (hq.symm.trans hr)
  have hstay : ∀ {a b : σ}, Relation.ReflTransGen (fun p q => step p = some q) a b →
      step a = none → a = b := by
    intro a b hrun hhalt
    rcases hrun.cases_head with heq | ⟨q, hstep, -⟩
    · exact heq
    · exact absurd (hhalt.symm.trans hstep) (by simp)
  rcases Relation.ReflTransGen.total_of_right_unique hunique ha hb with hrun | hrun
  · exact hstay hrun hhalta
  · exact (hstay hrun hhaltb).symm

/-- The first pass on its way: the stack, its top first, and how far the traversal has come. -/
structure Pass (α : Type) where
  stack : List α
  progress : Traversal α

namespace Pass

/-- Looks at the top of the stack. A vertex that is new is entered and stays, below those of its successors
that are new as well; another one is taken off, and finished if it was not. -/
def step (next : α → List α) : Pass α → Option (Pass α)
  | ⟨[], _⟩ => none
  | ⟨v :: stack, t⟩ =>
    if v ∈ t.seen then
      some ⟨stack, if v ∈ t.finished then t else { t with finished := v :: t.finished }⟩
    else
      let seen := v :: t.seen
      some ⟨(next v).filter (· ∉ seen) ++ v :: stack, { t with seen := seen }⟩

/-- Whether one state of the pass leads to another one. -/
def Runs (next : α → List α) : Pass α → Pass α → Prop :=
  Relation.ReflTransGen fun p q => p.step next = some q

variable {next : α → List α} {stack : List α} {t : Traversal α} {v : α}

theorem step_enter (hv : v ∉ t.seen) : step next ⟨v :: stack, t⟩ =
    some ⟨(next v).filter (· ∉ v :: t.seen) ++ v :: stack, { t with seen := v :: t.seen }⟩ := by
  simp only [step, if_neg hv]

theorem step_finish (next : α → List α) (stack : List α) (hv : t.Open v) : step next ⟨v :: stack, t⟩ =
    some ⟨stack, { t with finished := v :: t.finished }⟩ := by
  simp only [step, if_pos hv.1, if_neg hv.2]

theorem step_drop (hseen : v ∈ t.seen) (hv : v ∈ t.finished) : step next ⟨v :: stack, t⟩ =
    some ⟨stack, t⟩ := by
  simp only [step, if_pos hseen, if_pos hv]

/-- A pass has one end. -/
theorem Runs.unique {p : Pass α} {t t' : Traversal α} (h : Runs next p ⟨[], t⟩)
    (h' : Runs next p ⟨[], t'⟩) : t = t' :=
  congrArg Pass.progress (halted_unique h h' rfl rfl)

end Pass

open Traversal

theorem explore_of_mem {next : α → List α} {depth : Nat} {t : Traversal α} {v : α} (hv : v ∈ t.seen) :
    explore next depth t v = t := by
  cases depth with
  | zero => rfl
  | succ depth => rw [explore, if_pos hv]

section FirstPass

variable {next : α → List α} {vertices : List α}

/-- Successors that were entered before need not be pushed. -/
theorem foldl_explore_filter (hnext : ∀ v ∈ vertices, next v ⊆ vertices) {depth : Nat} {seen : List α}
    (vs : List α) (t : Traversal α) (hvs : vs ⊆ vertices) (ht : Sound vertices t)
    (hdepth : vertices.length ≤ depth + t.seen.length) (hseen : seen ⊆ t.seen) :
    (vs.filter (· ∉ seen)).foldl (explore next depth) t = vs.foldl (explore next depth) t := by
  induction vs generalizing t with
  | nil => rfl
  | cons v vs ih =>
      obtain ⟨hv, hvs⟩ := List.cons_subset.mp hvs
      by_cases hmem : v ∈ seen
      · rw [List.filter_cons_of_neg (by simpa using hmem), List.foldl_cons,
          explore_of_mem (hseen hmem)]
        exact ih t hvs ht hdepth hseen
      · obtain ⟨hsound, hext, -⟩ := explores hnext depth t v hv ht hdepth
        have hgrown := hext.length_le ht
        rw [List.filter_cons_of_pos (by simpa using hmem), List.foldl_cons, List.foldl_cons]
        exact ih _ hvs hsound (by omega) fun w hw => hext.seen (hseen hw)

/-- With this depth, the pass takes a vertex that is not open off the stack when it has explored it. -/
def PassExplores (next : α → List α) (vertices : List α) (depth : Nat) : Prop :=
  ∀ (t : Traversal α) (v : α) (stack : List α), v ∈ vertices → Sound vertices t →
    vertices.length ≤ depth + t.seen.length → ¬ t.Open v →
    Pass.Runs next ⟨v :: stack, t⟩ ⟨stack, explore next depth t v⟩

theorem PassExplores.foldl {depth : Nat} (hnext : ∀ v ∈ vertices, next v ⊆ vertices)
    (h : PassExplores next vertices depth) (vs stack : List α) (t : Traversal α) (hvs : vs ⊆ vertices)
    (ht : Sound vertices t) (hdepth : vertices.length ≤ depth + t.seen.length)
    (hopen : ∀ v ∈ vs, ¬ t.Open v) :
    Pass.Runs next ⟨vs ++ stack, t⟩ ⟨stack, vs.foldl (explore next depth) t⟩ := by
  induction vs generalizing t with
  | nil => exact .refl
  | cons v vs ih =>
      obtain ⟨hv, hvs⟩ := List.cons_subset.mp hvs
      obtain ⟨hvopen, hopen⟩ := List.forall_mem_cons.mp hopen
      obtain ⟨hsound, hext, -⟩ := explores hnext depth t v hv ht hdepth
      have hgrown := hext.length_le ht
      -- What is explored leaves the same vertices open, so the others on the stack are not.
      have hrest := ih (explore next depth t v) hvs hsound (by omega)
        fun w hw hwopen => hopen w hw ((hext.opened w).mp hwopen)
      exact (h t v (vs ++ stack) hv ht hdepth hvopen).trans hrest

theorem passExplores (hnext : ∀ v ∈ vertices, next v ⊆ vertices) (depth : Nat) :
    PassExplores next vertices depth := by
  have hdrop : ∀ (t : Traversal α) (v : α) (stack : List α), ¬ t.Open v → v ∈ t.seen →
      Pass.Runs next ⟨v :: stack, t⟩ ⟨stack, t⟩ := by
    intro t v stack hopen hseen
    have hfinished : v ∈ t.finished := by
      by_contra hnot
      exact hopen ⟨hseen, hnot⟩
    exact .single (Pass.step_drop hseen hfinished)
  induction depth with
  | zero =>
      intro t v stack hv ht hdepth hopen
      exact hdrop t v stack hopen (mem_of_full ht.seen_nodup ht.seen_subset (by omega) hv)
  | succ depth ih =>
      intro t v stack hv ht hdepth hopen
      rw [explore]
      split_ifs with hseen
      · exact hdrop t v stack hopen hseen
      have hentered := ht.enter hv hseen
      have hdepth' : vertices.length ≤ depth + (v :: t.seen).length := by
        simp only [List.length_cons]
        omega
      have hpushed : (next v).filter (· ∉ v :: t.seen) ⊆ vertices :=
        fun w hw => hnext v hv (List.mem_of_mem_filter hw)
      have hnew : ∀ w ∈ (next v).filter (· ∉ v :: t.seen), ¬ Open { t with seen := v :: t.seen } w := by
        intro w hw hwopen
        exact absurd hwopen.1 (by simpa using (List.mem_filter.mp hw).2)
      have hinner := ih.foldl hnext _ (v :: stack) { t with seen := v :: t.seen } hpushed hentered
        hdepth' hnew
      rw [foldl_explore_filter hnext (next v) _ (hnext v hv) hentered hdepth'
        (List.Subset.refl _)] at hinner
      obtain ⟨-, hext, -⟩ := (explores hnext depth).foldl (next v) { t with seen := v :: t.seen }
        (hnext v hv) hentered hdepth'
      have hfinish := Pass.step_finish next stack ((hext.opened v).mpr (ht.open_enter hseen))
      exact Relation.ReflTransGen.head (Pass.step_enter hseen) (hinner.tail hfinish)

/-- The first pass over a list of vertices: from each of them that was not entered before, a run with only
this vertex on the stack. -/
inductive Scans (next : α → List α) : List α → Traversal α → Traversal α → Prop
  | done (t) : Scans next [] t t
  | skip {v vs t t'} (hv : v ∈ t.seen) (h : Scans next vs t t') : Scans next (v :: vs) t t'
  | run {v vs t t' t''} (hv : v ∉ t.seen) (hrun : Pass.Runs next ⟨[v], t⟩ ⟨[], t'⟩)
      (h : Scans next vs t' t'') : Scans next (v :: vs) t t''

theorem Scans.unique {vs : List α} {t t' t'' : Traversal α} (h : Scans next vs t t')
    (h' : Scans next vs t t'') : t' = t'' := by
  induction h with
  | done =>
      cases h'
      rfl
  | skip hv _ ih =>
      cases h' with
      | skip _ h' => exact ih h'
      | run hnot _ _ => exact absurd hv hnot
  | run hv hrun _ ih =>
      cases h' with
      | skip hmem _ => exact absurd hmem hv
      | run _ hrun' h' =>
          obtain rfl := hrun.unique hrun'
          exact ih h'

/-- The pass enters and finishes vertices in the order of the recursive traversal. -/
theorem scans_foldl (hnext : ∀ v ∈ vertices, next v ⊆ vertices) (depth : Nat) (vs : List α)
    (t : Traversal α) (hvs : vs ⊆ vertices) (ht : Sound vertices t)
    (hdepth : vertices.length ≤ depth + t.seen.length) (hopen : ∀ v, ¬ t.Open v) :
    Scans next vs t (vs.foldl (explore next depth) t) := by
  induction vs generalizing t with
  | nil => exact .done t
  | cons v vs ih =>
      obtain ⟨hv, hvs⟩ := List.cons_subset.mp hvs
      rw [List.foldl_cons]
      by_cases hmem : v ∈ t.seen
      · rw [explore_of_mem hmem]
        exact .skip hmem (ih t hvs ht hdepth hopen)
      · obtain ⟨hsound, hext, -⟩ := explores hnext depth t v hv ht hdepth
        have hgrown := hext.length_le ht
        refine .run hmem (passExplores hnext depth t v [] hv ht hdepth (hopen v)) ?_
        exact ih _ hvs hsound (by omega) fun w hw => hopen w ((hext.opened w).mp hw)

end FirstPass

/-- The next vertex of a walk, with the stack and the visited vertices after it: the topmost one on the stack
that was not visited. The vertices that are next to it and were not visited are pushed. -/
def nextVisit (next : α → List α) : (stack visited : List α) → Option (α × List α × List α)
  | [], _ => none
  | v :: stack, visited =>
    if v ∈ visited then nextVisit next stack visited
    else some (v, (next v).filter (· ∉ v :: visited) ++ stack, v :: visited)

/-- The second vertex of the first walk that has one; a walk begins at each vertex of the list. -/
def secondVisit (next : α → List α) : (visited order : List α) → Option α
  | _, [] => none
  | visited, v :: order =>
    match nextVisit next [v] visited with
    | none => secondVisit next visited order
    | some (_, stack, visited) =>
      match nextVisit next stack visited with
      | some (u, _) => some u
      | none => secondVisit next visited order

/-- Where nothing on the stack was visited, the next vertex is the one on top. -/
theorem nextVisit_filter (next : α → List α) (vs visited : List α) :
    (nextVisit next (vs.filter (· ∉ visited)) visited).map Prod.fst = vs.find? (· ∉ visited) := by
  rw [← List.head?_filter]
  cases hfilter : vs.filter (· ∉ visited) with
  | nil => rfl
  | cons u rest =>
      have hu : u ∉ visited := by
        have hmem : u ∈ vs.filter (· ∉ visited) := hfilter ▸ List.mem_cons_self
        simpa using (List.mem_filter.mp hmem).2
      rw [nextVisit, if_neg hu]
      rfl

namespace Digraph

variable {g : Digraph α}

/-- As long as no walk goes on, what was visited are the vertices that the walks began at. -/
theorem secondVisit_eq_lateIn {before order : List α} (hnodup : order.Nodup)
    (hbefore : ∀ v ∈ order, v ∉ before) :
    secondVisit (predecessors g.arcs) before order = g.lateIn before order := by
  induction order generalizing before with
  | nil => rfl
  | cons v order ih =>
      obtain ⟨hv, hnodup⟩ := List.nodup_cons.mp hnodup
      obtain ⟨hvbefore, hbefore⟩ := List.forall_mem_cons.mp hbefore
      have hfirst : nextVisit (predecessors g.arcs) [v] before =
          some (v, (predecessors g.arcs v).filter (· ∉ v :: before), v :: before) := by
        rw [nextVisit, if_neg hvbefore, List.append_nil]
      have hsecond := nextVisit_filter (predecessors g.arcs) (predecessors g.arcs v) (v :: before)
      rw [secondVisit, hfirst, lateIn]
      dsimp only
      cases hgoes : nextVisit (predecessors g.arcs) ((predecessors g.arcs v).filter (· ∉ v :: before))
          (v :: before) with
      | some visit =>
          rw [hgoes] at hsecond
          rw [← hsecond]
          rfl
      | none =>
          rw [hgoes] at hsecond
          rw [← hsecond]
          refine ih hnodup fun w hw hmem => ?_
          rcases List.mem_cons.mp hmem with rfl | hmem
          · exact hv hw
          · exact hbefore w hw hmem

/-- What the two passes over a graph report: nothing, or a vertex. -/
def Reports (g : Digraph α) (found : Option α) : Prop :=
  ∃ t, Scans (successors g.arcs) g.vertices {} t ∧
    secondVisit (predecessors g.arcs) [] t.finished = found

/-- The two passes come to an end, and report what comes too late in the order of the traversal. -/
theorem reports_iff (hg : g.Proper) {found : Option α} : g.Reports found ↔ g.culprit? = found := by
  have hnext : ∀ v ∈ g.vertices, successors g.arcs v ⊆ g.vertices :=
    fun v _ => successors_subset hg.head_mem v
  have hscans := scans_foldl hnext g.vertices.length g.vertices {} (List.Subset.refl g.vertices)
    (sound_empty g.vertices) (by simp) fun v hv => List.not_mem_nil hv.1
  obtain ⟨hnodup, -, -⟩ := finishOrder_spec hnext (List.Subset.refl g.vertices)
  have hsecond : secondVisit (predecessors g.arcs) [] g.traversalOrder = g.culprit? :=
    secondVisit_eq_lateIn hnodup fun _ _ => List.not_mem_nil
  constructor
  · rintro ⟨t, ht, hfound⟩
    obtain rfl := ht.unique hscans
    exact hsecond.symm.trans hfound
  · intro hfound
    exact ⟨_, hscans, hsecond.trans hfound⟩

end Digraph

end FlowGraph.Graph
