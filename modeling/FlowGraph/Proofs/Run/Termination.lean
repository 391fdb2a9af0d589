import FlowGraph.Proofs.Plan.Scopes
import FlowGraph.Proofs.Run.Determined
import FlowGraph.Proofs.Run.Indices
import Mathlib.Algebra.BigOperators.Group.List.Basic
import Mathlib.Data.List.MinMax
import Mathlib.Data.List.Sections

/-!
Runs end. A loop that is visited in the body of another one lies in this body together with its own, smaller
one; so passes are nested no deeper than there are loops, and no loop is visited while it is being gone
through. Every step of a run leads on towards its end; and since each call of a node is made in an iteration
of its own, there are no more of them than the collections of the loops around the node allow.
-/

namespace FlowGraph

open Plan

namespace Plan

variable (p : Plan)

/-- Whether a pass through the body of a loop visits another loop. -/
def VisitsInside (inner outer : String) : Prop :=
  ∃ m ∈ p.regionNodes (some outer), m.id = inner ∧ m.kind.loopHandles?.isSome = true

/-- Whether a loop lies inside another one together with its body, which has fewer members. -/
structure Shrinks (outer inner : String) : Prop where
  encloses : p.Encloses outer inner
  length_lt : (p.body inner).length < (p.body outer).length

/-- Whether bodies shrink from the outside in along the scopes of loops. -/
def ScopesShrink : Prop :=
  ∀ m ∈ p.nodes, m.kind.loopHandles?.isSome = true → ∀ outer ∈ m.scope, p.Shrinks outer m.id

variable {p}

theorem ScopesShrink.shrinks (h : p.ScopesShrink) (hp : p.Lawful) {inner outer : String}
    (hvisits : p.VisitsInside inner outer) : p.Shrinks outer inner := by
  obtain ⟨m, hm, rfl, hloop⟩ := hvisits
  obtain ⟨hm, hlast⟩ := hp.mem_regionNodes.mp hm
  exact h m hm hloop outer (List.mem_of_getLast? hlast)

/-- Loops cannot go on visiting loops inside of each other, as their bodies get smaller. -/
theorem ScopesShrink.wellFounded (h : p.ScopesShrink) (hp : p.Lawful) : WellFounded p.VisitsInside :=
  Subrelation.wf (fun hvisits => (h.shrinks hp hvisits).length_lt)
    (measure fun id => (p.body id).length).wf

/-- A loop that has got its collection, and those around it, shrink from the outside in. -/
theorem Opened.pairwise_shrinks {journal : List Entry} {o : OpenLoop} {loops : List OpenLoop}
    (h : p.Opened journal loops o) (hstacked : p.Stacked journal loops) (hp : p.Lawful)
    (hshrink : p.ScopesShrink) (hloops : (idsOf loops).Pairwise p.Shrinks) :
    (idsOf (o :: loops)).Pairwise p.Shrinks := by
  have hnode := h.visiting.node_mem
  have hscope := hstacked.scope_eq hp hnode (h.visiting.level.getLast?_scope hp List.mem_cons_self)
  rw [idsOf_cons, List.pairwise_append]
  refine ⟨hloops, List.pairwise_singleton _ _, fun outer houter inner hinner => ?_⟩
  obtain rfl := List.mem_singleton.mp hinner
  exact hshrink o.node hnode (by rw [h.kind_eq]; rfl) outer (hscope ▸ houter)

theorem Stacked.pairwise_shrinks {journal : List Entry} {loops : List OpenLoop}
    (h : p.Stacked journal loops) (hp : p.Lawful) (hshrink : p.ScopesShrink) :
    (idsOf loops).Pairwise p.Shrinks := by
  induction loops with
  | nil => exact List.Pairwise.nil
  | cons o loops ih =>
      obtain ⟨hopened, -, -, hstacked⟩ := h
      exact hopened.pairwise_shrinks hstacked hp hshrink (ih hstacked)

end Plan

/-- In the plan of an accepted flow bodies shrink from the outside in. -/
theorem Registry.scopesShrink_of_resolve_eq_ok {r : Registry} {flow : Flow} {start : Option String}
    {p : Plan} (h : r.resolve flow start = .ok p) : p.ScopesShrink := by
  obtain ⟨f, id, loops, -, hf, hplanned⟩ := r.exists_planned_of_resolve_eq_ok h
  intro m hm hloop outer houter
  have hmem : m.id ∈ loops.map (·.id) := by
    rw [← hplanned.map_id_loops, hplanned.map_id_loops_eq]
    exact List.mem_map_of_mem (List.mem_filter.mpr ⟨hm, hloop⟩)
  obtain ⟨inner, hinner, hid⟩ := List.mem_map.mp hmem
  rw [hplanned.scope_eq hm, TypedFlow.mem_scopeOf] at houter
  obtain ⟨around, haround, rfl, hbody⟩ := houter
  have hencloses : around.Encloses inner := by
    show inner.id ∈ around.body
    rw [hid]
    exact hbody
  rw [← hid]
  refine ⟨hplanned.encloses_of_mem_body hf haround hinner hencloses, ?_⟩
  rw [hplanned.body_id hf hinner, hplanned.body_id hf haround]
  exact (hplanned.nested hf).length_body_lt haround hinner hencloses

/-- The iteration, if an entry tells of a call of the node. -/
def Entry.calledAt? (id : String) : Entry → Option (List Nat)
  | called id' iteration _ => if id' = id then some iteration else none
  | _ => none

/-- The iterations in which a node was called, the latest one first. -/
def callsOf (journal : List Entry) (id : String) : List (List Nat) :=
  journal.filterMap (Entry.calledAt? id)

theorem mem_callsOf {journal : List Entry} {id : String} {it : List Nat} :
    it ∈ callsOf journal id ↔ ∃ inputs, .called id it inputs ∈ journal := by
  rw [callsOf, List.mem_filterMap]
  constructor
  · rintro ⟨e, he, hat⟩
    cases e with
    | called id' it' inputs =>
        obtain ⟨rfl, rfl⟩ : id' = id ∧ it' = it := by simpa [Entry.calledAt?] using hat
        exact ⟨inputs, he⟩
    | _ => exact absurd hat (by simp [Entry.calledAt?])
  · rintro ⟨inputs, hcalled⟩
    exact ⟨_, hcalled, if_pos rfl⟩

/-- The size of the collection, if an entry tells that the loop enters an iteration. -/
def Entry.collection? (loopId : String) : Entry → Option Nat
  | sent (.loopIteration id _ total) => if id = loopId then some total else none
  | _ => none

/-- The size of the largest collection that a loop has gone through; zero if it has entered no iteration. -/
def largestCollection (journal : List Entry) (loopId : String) : Nat :=
  (journal.filterMap (Entry.collection? loopId)).foldr max 0

theorem le_largestCollection {journal : List Entry} {loopId : String} {index total : Nat}
    (h : .sent (.loopIteration loopId index total) ∈ journal) :
    total ≤ largestCollection journal loopId := by
  have hmem : total ∈ journal.filterMap (Entry.collection? loopId) :=
    List.mem_filterMap.mpr ⟨_, h, if_pos rfl⟩
  exact List.le_max_of_le' 0 hmem le_rfl

theorem length_sections {α : Type} (choices : List (List α)) :
    choices.sections.length = (choices.map List.length).prod := by
  induction choices with
  | nil => rfl
  | cons xs choices ih =>
      rw [List.sections, List.length_flatMap, List.map_cons, List.prod_cons, ← ih]
      simp [mul_comm]

/-- Different lists whose items stay below bounds are no more than the product of these. -/
theorem length_le_prod {bounds : List Nat} {items : List (List Nat)} (hnodup : items.Nodup)
    (hbounds : ∀ item ∈ items, List.Forall₂ (· < ·) item bounds) : items.length ≤ bounds.prod := by
  have hsub : items ⊆ (bounds.map List.range).sections := by
    intro item hitem
    rw [List.mem_sections, List.forall₂_map_right_iff]
    exact (hbounds item hitem).imp fun k bound hlt => List.mem_range.mpr hlt
  calc items.length
      ≤ (bounds.map List.range).sections.length := (List.subperm_of_subset hnodup hsub).length_le
    _ = bounds.prod := by simp [length_sections, List.map_map, Function.comp_def]

namespace RunSettings

variable {s : RunSettings} {c c' : Snapshot}

/-- The iterations under way have been announced, with the sizes of their collections. -/
theorem Reachable.announced (hp : s.plan.Lawful) (hc : s.Reachable c) : ∀ o ∈ c.underWay,
    .sent (.loopIteration o.node.id o.index o.elements.length) ∈ c.run.journal := by
  induction hc with
  | begin => exact fun o ho => absurd ho List.not_mem_nil
  | @step c c' hc hstep ih =>
      intro o ho
      rcases hstep.enters_or_records hp (standing_of_reachable hp hc) with
        ⟨o', loops, r, rfl, hunder, hjournal⟩ | ⟨added, hrec⟩
      · rw [hunder] at ho
        rw [hjournal]
        rcases List.mem_cons.mp ho with rfl | ho
        · exact List.mem_cons_self
        · exact List.mem_cons_of_mem _ (ih o ho)
      · rw [hrec.journal_eq]
        exact List.mem_append_right _ (ih o (hrec.underWay ho))

/-- A node is called in different iterations. -/
theorem Reachable.nodup_callsOf (hp : s.plan.Lawful) (hc : s.Reachable c) (id : String) :
    (callsOf c.run.journal id).Nodup := by
  have hordered : ∀ it inputs rest, .called id it inputs :: rest <:+ c.run.journal →
      it ∉ callsOf rest id := by
    intro it inputs rest hcalled hmem
    obtain ⟨inputs', hearlier⟩ := mem_callsOf.mp hmem
    exact Precedes.irrefl _ (hc.precedes_of_called hp hcalled _ hearlier _ _ rfl rfl)
  generalize c.run.journal = journal at hordered
  induction journal with
  | nil => exact List.nodup_nil
  | cons e journal ih =>
      have hrest := ih fun it inputs rest h => hordered it inputs rest (h.trans (List.suffix_cons e journal))
      cases hat : e.calledAt? id with
      | none =>
          rw [callsOf, List.filterMap_cons_none hat]
          exact hrest
      | some it =>
          rw [callsOf, List.filterMap_cons_some hat, List.nodup_cons]
          refine ⟨?_, hrest⟩
          cases e with
          | called id' it' inputs =>
              obtain ⟨rfl, rfl⟩ : id' = id ∧ it' = it := by simpa [Entry.calledAt?] using hat
              exact hordered it' inputs journal List.suffix_rfl
          | _ => exact absurd hat (by simp [Entry.calledAt?])

/-- An iteration in which a node is called stays below the collections of the loops around the node. -/
theorem Reachable.call_below (hp : s.plan.Lawful) (hc : s.Reachable c) {n : PlannedNode}
    (hn : n ∈ s.plan.nodes) {it : List Nat} (hit : it ∈ callsOf c.run.journal n.id) :
    List.Forall₂ (· < ·) it (n.scope.map (largestCollection c.run.journal)) := by
  obtain ⟨inputs, hcalled⟩ := mem_callsOf.mp hit
  obtain ⟨later, rest, c₀, hjournal, hc₀, hwrites⟩ := hc.written_of_mem hp hcalled
  generalize hid : n.id = id at hwrites
  cases hwrites with
  | @called frame m todo loops r _ _ _ =>
      obtain ⟨hlevel, -, hstacked⟩ := standing_of_reachable hp hc₀
      obtain rfl := hp.eq_of_id_eq hn hlevel.node_mem hid
      have hscope := hstacked.scope_eq hp hn (hlevel.getLast?_scope hp List.mem_cons_self)
      have hbelow : ∀ o ∈ loops.reverse, o.index < largestCollection c.run.journal o.node.id := by
        intro o ho
        have ho := List.mem_reverse.mp ho
        obtain ⟨-, -, hmore, -⟩ := hstacked.exists_opened ho
        have hannounced := hc₀.announced hp o ho
        have hmem : .sent (.loopIteration o.node.id o.index o.elements.length) ∈ c.run.journal := by
          rw [hjournal]
          exact List.mem_append_right _ (List.mem_cons_of_mem _ (List.mem_cons_of_mem _ hannounced))
        exact hmore.trans_le (le_largestCollection hmem)
      have hindices : (placeOf loops).iteration = loops.reverse.map (·.index) := by
        rw [List.map_reverse]
        rfl
      have hids : n.scope.map (largestCollection c.run.journal) =
          loops.reverse.map fun o => largestCollection c.run.journal o.node.id := by
        rw [hscope, idsOf, ← List.map_reverse, List.map_map]
        rfl
      rw [hindices, hids, List.forall₂_map_left_iff, List.forall₂_map_right_iff, List.forall₂_same]
      exact hbelow

/-- From what leads to the end there are only finitely many steps. -/
theorem acc_of_steps_ended {loops : List OpenLoop} {r : RunState}
    (h : s.Steps c ⟨.ended, loops, r⟩) : Acc (fun c' c => s.Step c c') c := by
  induction h using Relation.ReflTransGen.head_induction_on with
  | refl => exact Acc.intro _ fun c' hstep => by cases hstep
  | head hstep _ ih =>
      refine Acc.intro _ fun c' hstep' => ?_
      obtain rfl := hstep.deterministic hstep'
      exact ih

/-- The open loops stand inside of each other, each one at an element; but for the innermost one, perhaps,
which is about to look for its next one. -/
theorem Reachable.stacked_or_opened (hp : s.plan.Lawful) (hc : s.Reachable c) :
    s.plan.Stacked c.run.journal c.loops ∨ ∃ o loops, c.loops = o :: loops ∧
      s.plan.Opened c.run.journal loops o ∧ s.plan.Stacked c.run.journal loops := by
  have hstanding := standing_of_reachable hp hc
  cases hstanding with
  | passing _ _ hstacked | answered _ _ _ hstacked | settling _ hstacked | leaving _ _ hstacked =>
      exact Or.inl hstacked
  | looping hopened _ hstacked => exact Or.inr ⟨_, _, rfl, hopened, hstacked⟩
  | @ended loops r =>
      have hended := eq_of_steps_ended (hc.steps_execute hp)
      rw [← hended]
      exact Or.inl trivial

theorem Reachable.pairwise_shrinks (hp : s.plan.Lawful) (hshrink : s.plan.ScopesShrink)
    (hc : s.Reachable c) : (idsOf c.loops).Pairwise s.plan.Shrinks := by
  rcases hc.stacked_or_opened hp with hstacked | ⟨o, loops, hloops, hopened, hstacked⟩
  · exact hstacked.pairwise_shrinks hp hshrink
  · rw [hloops]
    exact hopened.pairwise_shrinks hstacked hp hshrink (hstacked.pairwise_shrinks hp hshrink)

theorem Reachable.length_loops_le (hp : s.plan.Lawful) (hc : s.Reachable c) :
    c.loops.length ≤ s.plan.loops.length := by
  rcases hc.stacked_or_opened hp with hstacked | ⟨o, loops, hloops, hopened, hstacked⟩
  · exact hstacked.length_le hp
  · rw [hloops]
    exact hopened.length_le hstacked hp

/-- That a run ends, and how much it does at most. -/
structure Terminates (s : RunSettings) : Prop where
  /-- A loop that is visited in the body of another one lies in this body, and has a smaller one. -/
  descends : ∀ inner outer, s.plan.VisitsInside inner outer → s.plan.Shrinks outer inner
  wellFounded : WellFounded s.plan.VisitsInside
  /-- There is no endless sequence of steps, -/
  finite : ∀ c, s.Reachable c → Acc (fun c' c => s.Step c c') c
  /-- and whatever a run comes to leads to its end. -/
  completes : ∀ c, s.Reachable c → s.Steps c ⟨.ended, [], s.execute.2⟩
  /-- The bodies of open loops shrink from the outside in, so they are different loops. -/
  nested : ∀ c, s.Reachable c → (idsOf c.loops).Pairwise s.plan.Shrinks ∧ (idsOf c.loops).Nodup
  /-- Passes are nested no deeper than there are loops: one in each open loop, and the one outside. -/
  depth_le : ∀ c, s.Reachable c → c.loops.length + 1 ≤ s.plan.loops.length + 1
  /-- What is visited is none of the open loops. -/
  not_reentered : ∀ frame n todo loops r, s.Reachable ⟨.passing frame (n :: todo), loops, r⟩ →
    n.id ∉ idsOf loops
  /-- A node is called no more often than the collections of the loops around it allow. -/
  calls_le : ∀ n ∈ s.plan.nodes, (callsOf s.execute.2.journal n.id).length ≤
    (n.scope.map (largestCollection s.execute.2.journal)).prod

end RunSettings

namespace Registry

/-- The runs of accepted flows end. -/
theorem runs_terminate {r : Registry} {flow : Flow} {start : Option String} {s : RunSettings}
    (h : r.resolve flow start = .ok s.plan) : s.Terminates := by
  have hp := lawful_of_resolve_eq_ok h
  have hshrink := scopesShrink_of_resolve_eq_ok h
  have hexecute := RunSettings.reachable_execute hp
  refine
    { descends := fun inner outer hvisits => hshrink.shrinks hp hvisits
      wellFounded := hshrink.wellFounded hp
      finite := fun c hc => RunSettings.acc_of_steps_ended (hc.steps_execute hp)
      completes := fun c hc => hc.steps_execute hp
      nested := fun c hc => ⟨hc.pairwise_shrinks hp hshrink, ?_⟩
      depth_le := fun c hc => Nat.succ_le_succ (hc.length_loops_le hp)
      not_reentered := fun frame n todo loops r hc => ?_
      calls_le := fun n hn => ?_ }
  · refine (hc.pairwise_shrinks hp hshrink).imp ?_
    rintro outer inner hshrinks rfl
    exact absurd hshrinks.length_lt (Nat.lt_irrefl _)
  · obtain ⟨hlevel, -, hstacked⟩ := standing_of_reachable hp hc
    exact hstacked.not_mem_idsOf hp hlevel List.mem_cons_self (Or.inl rfl)
  · exact length_le_prod (hexecute.nodup_callsOf hp n.id) fun it hit => hexecute.call_below hp hn hit

/-- Rows of one, three and no elements. -/
def threeRows : Flow where
  nodes := [⟨"s", "start", .null⟩,
    ⟨"list", "json", .object [("value", .array [.array [.bool true],
      .array [.bool true, .bool true, .bool true], .array []])]⟩,
    ⟨"outer", "forEach", .null⟩, ⟨"inner", "forEach", .null⟩, ⟨"show", "log", .null⟩]
  edges := [⟨"e1", "s", none, "list", none⟩, ⟨"e2", "list", none, "outer", some "items"⟩,
    ⟨"e3", "outer", some "item", "inner", some "items"⟩, ⟨"e4", "inner", some "item", "show", none⟩]

/-- The node in both loops is called four times, of the nine times that their collections allow. -/
theorem threeRows_terminates : ∃ p, Standard.registry.resolve threeRows none = .ok p ∧
    let s : RunSettings := { plan := p }
    s.Terminates ∧ p.VisitsInside "inner" "outer" ∧ ∃ n ∈ p.nodes, n.id = "show" ∧
      n.scope.map (largestCollection s.execute.2.journal) = [3, 3] ∧
      callsOf s.execute.2.journal n.id = [[1, 2], [1, 1], [1, 0], [0, 0]] := by
  have hrun : ((Standard.registry.resolve threeRows none).toOption.map fun p => decide
      (let journal := (RunSettings.execute { plan := p }).2.journal
      (∃ m ∈ p.regionNodes (some "outer"), m.id = "inner" ∧ m.kind.loopHandles?.isSome = true) ∧
        ∃ n ∈ p.nodes, n.id = "show" ∧ n.scope.map (largestCollection journal) = [3, 3] ∧
          callsOf journal n.id = [[1, 2], [1, 1], [1, 0], [0, 0]])) = some true := by
    decide +kernel
  obtain ⟨p, hp, hrun⟩ := Option.map_eq_some_iff.mp hrun
  have hok := eq_ok_of_toOption_eq_some hp
  obtain ⟨hinside, hcalls⟩ := of_decide_eq_true hrun
  exact ⟨p, hok, runs_terminate (s := { plan := p }) hok, hinside, hcalls⟩

end Registry

end FlowGraph
