import FlowGraph.Proofs.Run.Simulation
import FlowGraph.Proofs.Run.Written

/-!
The order of visits in a pass. The direct members of a region that have been visited in an iteration are
the first ones in the order of the region, and all of them once a pass is finished.
-/

namespace FlowGraph

open Plan

namespace Plan

variable {p : Plan}

/-- How many loops are around the direct members of a region. -/
def depth (p : Plan) : Option String → Nat
  | none => 0
  | some loopId => (p.scope loopId).length + 1

theorem Lawful.length_scope_eq (hp : p.Lawful) {n : PlannedNode} (hn : n ∈ p.nodes) :
    n.scope.length = p.depth n.scope.getLast? := by
  cases hlast : n.scope.getLast? with
  | none =>
      rw [List.getLast?_eq_none_iff.mp hlast]
      rfl
  | some loopId =>
      obtain ⟨l, hl, rfl, hscope⟩ := hp.exists_scope_eq_concat hn hlast
      rw [depth, hp.scope_id hl, hscope, List.length_append, List.length_singleton]

theorem length_eq_depth {journal : List Entry} {loops : List OpenLoop} (hp : p.Lawful)
    (hstacked : p.Stacked journal loops) : loops.length = p.depth (placeOf loops).region := by
  cases loops with
  | nil => rfl
  | cons o loops =>
      obtain ⟨hopened, -, -, hrest⟩ := hstacked
      have hlevel := hopened.visiting.level
      have hnode := hlevel.node_mem
      have hscope := hrest.scope_eq hp hnode (hlevel.getLast?_scope hp List.mem_cons_self)
      show loops.length + 1 = (p.scope o.node.id).length + 1
      rw [hp.scope_id hnode, hscope, length_idsOf]

/-- Visits that come later come after. -/
theorem turns_prefix_of_suffix {earlier journal : List Entry} (h : earlier <:+ journal)
    (region : Option String) (iteration : List Nat) :
    p.turns earlier region iteration <+: p.turns journal region iteration := by
  obtain ⟨added, rfl⟩ := h
  rw [turns, turns, visitsIn_append, List.filter_append, List.map_append]
  exact List.prefix_append _ _

end Plan

namespace RunSettings

variable {s : RunSettings} {c : Snapshot}

/-- The turn of the first member due in a pass, which a visit has ended. -/
structure Turn (s : RunSettings) (journal : List Entry) (loops : List OpenLoop) (frame : Frame)
    (n : PlannedNode) (todo : List PlannedNode) (v : Visit) : Prop where
  level : s.plan.Level journal loops frame (n :: todo)
  stacked : s.plan.Stacked journal loops
  id_eq : v.nodeId = n.id
  iteration_eq : v.iteration = (placeOf loops).iteration
  executed_iff : v.status ≠ .skipped ↔ n.isActive (frame :: (placeOf loops).enclosing) = true

/-- A visit as deep in loops as its node is has ended a turn of it. -/
theorem Reachable.exists_turn (hp : s.plan.Lawful) (hc : s.Reachable c) {v : Visit}
    {rest : List Entry} (h : .visited v :: rest <:+ c.run.journal)
    (hlength : (s.plan.scope v.nodeId).length = v.iteration.length) :
    ∃ c₀ loops frame n todo event, s.Reachable c₀ ∧ rest = .sent event :: c₀.run.journal ∧
      s.Turn c₀.run.journal loops frame n todo v := by
  obtain ⟨c₀, hc₀, hwrites⟩ := hc.written hp h
  have hstanding := standing_of_reachable hp hc₀
  have hdeep : ∀ {journal loops frame n todo}, s.plan.Level journal loops frame (n :: todo) →
      s.plan.Stacked journal loops → v.iteration = (placeOf loops).iteration →
      n.id ∉ s.plan.scope v.nodeId := by
    intro journal loops frame n todo hlevel hstacked hit hscope
    have hlt := hp.length_scope_lt hlevel.node_mem hscope
    rw [hstacked.length_scope hp hlevel List.mem_cons_self, hlength, hit,
      length_iteration_placeOf] at hlt
    exact Nat.lt_irrefl _ hlt
  cases hwrites with
  | skipped hinactive =>
      obtain ⟨hlevel, -, hstacked⟩ := hstanding
      refine ⟨_, _, _, _, _, _, hc₀, rfl, hlevel, hstacked, rfl, rfl, ?_⟩
      rw [hinactive]
      simp
  | skippedWith hscope =>
      obtain ⟨hlevel, -, hstacked⟩ := hstanding
      exact absurd hscope (hdeep hlevel hstacked rfl)
  | skippedFor hscope =>
      cases hstanding with
      | answered hvisiting _ _ hstacked =>
          exact absurd hscope (hdeep hvisiting.level hstacked rfl)
  | completed | failed =>
      cases hstanding with
      | settling hvisiting hstacked =>
          exact ⟨_, _, _, _, _, _, hc₀, rfl, hvisiting.level, hstacked, rfl, rfl,
            iff_of_true (by simp) hvisiting.active⟩

/-- In an iteration the members of a region are visited in the order of the region. -/
theorem Reachable.turns_ordered (hp : s.plan.Lawful) (hc : s.Reachable c) {region : Option String}
    {it : List Nat} (hit : it.length = s.plan.depth region) {rest : List Entry}
    (hrest : rest <:+ c.run.journal) : s.plan.turns rest region it <+: s.plan.region region := by
  induction rest with
  | nil => exact List.nil_prefix
  | cons e rest ih =>
      have hbelow := ih ((List.suffix_cons e rest).trans hrest)
      by_cases hvisit : ∃ v, e = .visited v ∧ v.iteration = it ∧ v.nodeId ∈ s.plan.region region
      swap
      · have hsame : s.plan.turns ([e] ++ rest) region it = s.plan.turns rest region it := by
          refine turns_append_of_avoids fun e' he' v hv hvit hmem => hvisit ⟨v, ?_, hvit, hmem⟩
          obtain rfl := List.mem_singleton.mp he'
          cases e' with
          | visited w =>
              obtain rfl := Option.some.inj hv
              rfl
          | _ => exact absurd hv (by simp [Entry.visit?])
        exact hsame ▸ hbelow
      obtain ⟨v, rfl, rfl, hmem⟩ := hvisit
      have hlength : (s.plan.scope v.nodeId).length = v.iteration.length := by
        obtain ⟨m, hm, hid, hlast⟩ := (hp.mem_region _ _).mp hmem
        rw [← hid, hp.scope_id hm, hp.length_scope_eq hm, hlast, hit]
      obtain ⟨c₀, loops, frame, n, todo, event, -, rfl, hturn⟩ := hc.exists_turn hp hrest hlength
      have hregion : (placeOf loops).region = region :=
        hp.region_eq_of_mem (hturn.level.id_mem_region List.mem_cons_self) (hturn.id_eq ▸ hmem)
      have hturns := hturn.level.turns_eq
      rw [turns_visited hmem, hturn.id_eq, hturn.iteration_eq, ← hregion]
      show s.plan.turns c₀.run.journal _ _ ++ [n.id] <+: _
      rw [← hturns, List.map_cons]
      exact ⟨todo.map (·.id), by simp⟩

/-- A pass that is finished has visited all members of its region. -/
theorem Reachable.turns_of_passed (hp : s.plan.Lawful) (hc : s.Reachable c) {region : Option String}
    {it : List Nat} {exit : Exit} (h : .passed region it exit ∈ c.run.journal) :
    s.plan.turns c.run.journal region it <+: s.plan.region region ∧
      (exit = .finished → s.plan.turns c.run.journal region it = s.plan.region region) := by
  obtain ⟨later, rest, hjournal⟩ := List.append_of_mem h
  have hsuffix : .passed region it exit :: rest <:+ c.run.journal := ⟨later, hjournal.symm⟩
  have hgrown := turns_prefix_of_suffix (p := s.plan) ((List.suffix_cons _ rest).trans hsuffix)
    region it
  obtain ⟨c₀, hc₀, hwrites⟩ := hc.written hp hsuffix
  have hstanding := standing_of_reachable hp hc₀
  cases hwrites with
  | passed =>
      cases hstanding with
      | leaving hlevel hdue hstacked =>
          have hordered := hc.turns_ordered hp
            (by rw [length_iteration_placeOf, length_eq_depth hp hstacked]) (List.suffix_refl _)
          refine ⟨hordered, ?_⟩
          rintro rfl
          obtain rfl := hdue rfl
          have hearlier := hlevel.turns_eq
          rw [List.map_nil, List.append_nil] at hearlier
          rw [hearlier] at hgrown
          exact hordered.eq_of_length_le hgrown.length_le

end RunSettings

end FlowGraph
