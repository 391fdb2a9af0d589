import FlowGraph.Proofs.Run.Frames
import FlowGraph.Proofs.Run.Skips
import FlowGraph.Proofs.Run.Turns

/-!
Which nodes are run. The engine decides in the midst of a pass, from the frames as they are then; the
record of the whole run says the same, because a source has been dealt with before the node that it
feeds, and what comes later changes nothing about it. Whatever is not run is skipped, and with a loop
all that is inside of it.
-/

namespace FlowGraph

open Plan

theorem mem_of_sublist_append {α : Type} {xs ys : List α} {a b : α} (hnodup : (xs ++ b :: ys).Nodup)
    (h : [a, b].Sublist (xs ++ b :: ys)) : a ∈ xs := by
  induction xs with
  | nil =>
      have hb : b ∉ ys := (List.nodup_cons.mp hnodup).1
      rcases List.sublist_cons_iff.mp h with h | ⟨rest, heq, h⟩
      · exact absurd (h.subset (by simp)) hb
      · obtain ⟨-, rfl⟩ := List.cons.inj heq
        exact absurd (h.subset (by simp)) hb
  | cons x xs ih =>
      rcases List.sublist_cons_iff.mp h with h | ⟨rest, heq, -⟩
      · exact List.mem_cons_of_mem _ (ih (List.nodup_cons.mp hnodup).2 h)
      · obtain ⟨rfl, -⟩ := List.cons.inj heq
        exact List.mem_cons_self

namespace Plan

variable (p : Plan)

/-- Whether a binding of a node is live in an iteration, by the visits of a run: its source completed
there and chose no other output, or it is the body of a loop around the node. -/
def LiveIn (visits : List Visit) (n : PlannedNode) (iteration : List Nat) (b : Binding) : Prop :=
  (b.source ∈ n.scope ∧ ∃ m ∈ p.nodes, m.id = b.source ∧
    ∃ handles, m.kind.loopHandles? = some handles ∧ b.sourceHandle = handles.body) ∨
  ∃ v ∈ visits, v.nodeId = b.source ∧ v.iteration = iteration.take (p.scope b.source).length ∧
    v.status = .completed ∧ ∀ handle, v.signal = some (.branch handle) → handle = b.sourceHandle

/-- Whether a node is to be run in an iteration, by the visits of a run. -/
def ActiveIn (visits : List Visit) (n : PlannedNode) (iteration : List Nat) : Prop :=
  n.forwardBindings = [] ∨
    (∃ b ∈ n.forwardBindings, p.LiveIn visits n iteration b) ∧
      ∀ input ∈ n.handles.inputs, input.cardinality = .required →
        ∃ b ∈ n.forwardBindings, b.input = input.key ∧ p.LiveIn visits n iteration b

variable {p}

theorem LiveIn.mono {visits visits' : List Visit} (hsub : visits ⊆ visits') {n : PlannedNode}
    {it : List Nat} {b : Binding} (h : p.LiveIn visits n it b) : p.LiveIn visits' n it b := by
  rcases h with h | ⟨v, hv, h⟩
  · exact Or.inl h
  · exact Or.inr ⟨v, hsub hv, h⟩

/-- The body of a loop around a node is live there. -/
theorem liveIn_of_mem_scope (hp : p.Lawful) {n : PlannedNode} (hn : n ∈ p.nodes) {b : Binding}
    (hb : b ∈ n.forwardBindings) (hmem : b.source ∈ n.scope) (visits : List Visit) (it : List Nat) :
    p.LiveIn visits n it b := by
  obtain ⟨k, hk, hid⟩ := List.mem_iff_getElem.mp hmem
  obtain ⟨m, hm, hmid, -⟩ := hp.scope_getElem n hn k hk
  have hsource := hmid.trans hid
  have hscope : m.id ∈ n.scope := hsource ▸ hmem
  obtain ⟨handles, hkind⟩ := hp.exists_handles_of_mem_scope hm (hp.scope_id hn ▸ hscope)
  exact Or.inl ⟨hmem, m, hm, hsource, handles, hkind,
    hp.handle_of_binding n hn b hb m hm hsource hscope handles hkind⟩

theorem ActiveIn.imp {visits visits' : List Visit} {n : PlannedNode} {it : List Nat}
    (h : p.ActiveIn visits n it)
    (himp : ∀ b ∈ n.forwardBindings, p.LiveIn visits n it b → p.LiveIn visits' n it b) :
    p.ActiveIn visits' n it := by
  rcases h with hnone | ⟨⟨b, hb, hlive⟩, hrequired⟩
  · exact Or.inl hnone
  · refine Or.inr ⟨⟨b, hb, himp b hb hlive⟩, fun input hinput hcard => ?_⟩
    obtain ⟨b, hb, hkey, hlive⟩ := hrequired input hinput hcard
    exact ⟨b, hb, hkey, himp b hb hlive⟩

theorem isActive_iff_activeIn {frames : List Frame} {visits : List Visit} {n : PlannedNode}
    {it : List Nat}
    (hlive : ∀ b ∈ n.forwardBindings, isLive frames b = true ↔ p.LiveIn visits n it b) :
    n.isActive frames = true ↔ p.ActiveIn visits n it := by
  have hsome : ∀ key, (n.forwardBindings.filter (·.input = key)).any (isLive frames) = true ↔
      ∃ b ∈ n.forwardBindings, b.input = key ∧ p.LiveIn visits n it b := by
    intro key
    rw [List.any_eq_true]
    constructor
    · rintro ⟨b, hb, h⟩
      obtain ⟨hb, hkey⟩ := List.mem_filter.mp hb
      exact ⟨b, hb, of_decide_eq_true hkey, (hlive b hb).mp h⟩
    · rintro ⟨b, hb, hkey, h⟩
      exact ⟨b, List.mem_filter.mpr ⟨hb, decide_eq_true hkey⟩, (hlive b hb).mpr h⟩
  have hany : n.forwardBindings.any (isLive frames) = true ↔
      ∃ b ∈ n.forwardBindings, p.LiveIn visits n it b := by
    rw [List.any_eq_true]
    exact exists_congr fun b => and_congr_right fun hb => hlive b hb
  rw [PlannedNode.isActive, Bool.or_eq_true, List.isEmpty_iff, Bool.and_eq_true, hany,
    List.all_eq_true, ActiveIn]
  refine or_congr_right (and_congr_right fun _ =>
    ⟨fun h input hinput hcard => ?_, fun h input hinput => ?_⟩)
  · exact (hsome input.key).mp (h input (List.mem_filter.mpr ⟨hinput, decide_eq_true hcard⟩))
  · obtain ⟨hinput, hcard⟩ := List.mem_filter.mp hinput
    exact (hsome input.key).mpr (h input hinput (of_decide_eq_true hcard))

variable {journal : List Entry} {loops : List OpenLoop} {frame : Frame} {n : PlannedNode}
  {todo : List PlannedNode}

/-- What comes before the first due member in the order of a region has been visited. -/
theorem Level.exists_visit (hlevel : p.Level journal loops frame (n :: todo)) (hp : p.Lawful)
    {id : String} (h : [id, n.id].Sublist (p.region (placeOf loops).region)) :
    ∃ v ∈ visitsIn journal, v.nodeId = id ∧ v.iteration = (placeOf loops).iteration := by
  have hnodup := hp.region_nodup (placeOf loops).region
  rw [← hlevel.turns_eq] at h hnodup
  have hmem := mem_of_sublist_append hnodup h
  obtain ⟨v, hv, rfl⟩ := List.mem_map.mp hmem
  obtain ⟨hv, hvisit⟩ := List.mem_filter.mp hv
  exact ⟨v, hv, rfl, (of_decide_eq_true hvisit).1⟩

/-- A source has been visited when the turn has come to the node that it feeds. -/
theorem exists_visit_of_source (hp : p.Lawful) (hlevel : p.Level journal loops frame (n :: todo))
    (hstacked : p.Stacked journal loops) {b : Binding} (hb : b ∈ n.forwardBindings)
    {m : PlannedNode} (hm : m ∈ p.nodes) (hid : m.id = b.source) (houtside : m.id ∉ n.scope)
    (hne : m.id ≠ n.id) : ∃ v ∈ visitsIn journal, v.nodeId = m.id ∧
      v.iteration = (placeOf loops).iteration.take m.scope.length := by
  have hn := hlevel.node_mem
  have hscope := hstacked.scope_eq hp hn (hlevel.getLast?_scope hp List.mem_cons_self)
  have hprefix := hp.scope_of_binding n hn b hb m hm hid
  have horder := hp.order_of_binding n hn b hb m hm hid
  have htake := List.prefix_iff_eq_take.mp hprefix
  cases hk : n.scope[m.scope.length]? with
  | none =>
      have hsame : m.scope = n.scope :=
        hprefix.eq_of_length_le (List.getElem?_eq_none_iff.mp hk)
      rw [hk, Option.getD_none, hsame, hlevel.getLast?_scope hp List.mem_cons_self] at horder
      obtain ⟨v, hv, hvid, hvit⟩ := hlevel.exists_visit hp (horder hne)
      refine ⟨v, hv, hvid, ?_⟩
      rw [hvit, hsame, hscope, length_idsOf, ← length_iteration_placeOf, List.take_length]
  | some id =>
      obtain ⟨outer, o, ho, rfl, hopened, hids, hit, -⟩ :=
        hstacked.exists_opened_at (hscope ▸ hp.scope_nodup n hn) (hscope ▸ hk)
      have houter := hopened.visiting.level
      have hne' : m.id ≠ o.node.id := by
        intro heq
        exact houtside (heq ▸ List.mem_of_getElem? hk)
      have hregion : m.scope.getLast? = (placeOf outer).region := by
        rw [htake, hscope, ← hids, getLast?_idsOf]
      rw [hk, Option.getD_some, hregion] at horder
      obtain ⟨v, hv, hvid, hvit⟩ := houter.exists_visit hp (horder hne')
      exact ⟨v, hv, hvid, hvit.trans hit.symm⟩

end Plan

namespace RunSettings

variable {s : RunSettings} {c : Snapshot} {loops : List OpenLoop} {frame : Frame} {n : PlannedNode}
  {due : List PlannedNode} {b : Binding}

theorem Reachable.exists_node_of_visited (hp : s.plan.Lawful) (hc : s.Reachable c) {v : Visit}
    (hv : .visited v ∈ c.run.journal) : ∃ m ∈ s.plan.nodes, m.id = v.nodeId := by
  obtain ⟨later, rest, c₀, hjournal, hc₀, hwrites⟩ := hc.written_of_mem hp hv
  have hstanding := standing_of_reachable hp hc₀
  cases hwrites with
  | skipped =>
      obtain ⟨hlevel, -, -⟩ := hstanding
      exact ⟨_, hlevel.node_mem, rfl⟩
  | skippedWith hscope | skippedFor hscope =>
      obtain ⟨m, hm, hid, -⟩ := hp.exists_of_mem_scope hscope
      exact ⟨m, hm, hid⟩
  | completed | failed =>
      cases hstanding with
      | settling hvisiting _ => exact ⟨_, hvisiting.node_mem, rfl⟩

/-- A visit that completed was told of together with its outputs. -/
theorem Reachable.exists_completedIn (hp : s.plan.Lawful) (hc : s.Reachable c) {v : Visit}
    (hv : .visited v ∈ c.run.journal) (hcompleted : v.status = .completed) :
    ∃ found, CompletedIn c.run.journal v.nodeId v.iteration found ∧
      found.branch = v.signal.bind Signal.branch? := by
  obtain ⟨later, rest, c₀, hjournal, hc₀, hwrites⟩ := hc.written_of_mem hp hv
  cases hwrites with
  | @completed v completion loops r =>
      refine ⟨⟨completion.outputs, _⟩, ⟨completion.signal, r.clock - v.started, rfl, ?_⟩, rfl⟩
      exact ⟨later, r.journal, by rw [hjournal]; simp⟩
  | _ => exact absurd hcompleted (by simp)

theorem Reachable.isLive_iff_liveIn (hp : s.plan.Lawful) (hc : s.Reachable c)
    (hlevel : s.plan.Level c.run.journal loops frame due)
    (hstacked : s.plan.Stacked c.run.journal loops) (hn : n ∈ due) (hb : b ∈ n.forwardBindings) :
    isLive (frame :: (placeOf loops).enclosing) b = true ↔
      s.plan.LiveIn (visitsIn c.run.journal) n (placeOf loops).iteration b := by
  have hnode := hlevel.planned n hn
  have hscope := hstacked.scope_eq hp hnode (hlevel.getLast?_scope hp hn)
  have hlookup : ∀ m ∈ s.plan.nodes, m.id = b.source → ∀ found,
      lookup (frame :: (placeOf loops).enclosing) b.source = some found ↔
        (m.id ∉ idsOf loops ∧ CompletedIn c.run.journal m.id
          ((placeOf loops).iteration.take m.scope.length) found) ∨
        ∃ o ∈ loops, o.node.id = m.id ∧ ∃ element, o.elements[o.index]? = some element ∧
          found = o.entry element := by
    intro m hm hid found
    have hprefix := hp.scope_of_binding n hnode b hb m hm hid
    rw [← hid]
    exact lookup_iff hlevel hp hstacked hm (hscope ▸ hprefix) found
  rw [isLive_iff]
  constructor
  · rintro ⟨found, hfound, hbranch⟩
    obtain ⟨m, hm, hid, -⟩ := exists_of_lookup_eq_some hlevel hp hstacked hfound
    rcases (hlookup m hm hid found).mp hfound with ⟨-, hcompleted⟩ | ⟨o, ho, hoid, -⟩
    · obtain ⟨signal, duration, hsignal, hmem⟩ := hcompleted.visited_mem
      refine Or.inr ⟨_, mem_visitsIn.mpr hmem, hid, ?_, rfl, fun handle hhandle => ?_⟩
      · rw [← hid, hp.scope_id hm]
      · exact hbranch handle (hsignal ▸ Signal.bind_branch?_eq_some.mpr hhandle)
    · have hmem : b.source ∈ n.scope := hscope ▸ mem_idsOf.mpr ⟨o, ho, hoid.trans hid⟩
      exact liveIn_of_mem_scope hp hnode hb hmem _ _
  · intro hlive
    by_cases hinside : b.source ∈ n.scope
    · obtain ⟨o, ho, hoid⟩ := mem_idsOf.mp (hscope ▸ hinside)
      obtain ⟨outer, hopened, hmore, -⟩ := hstacked.exists_opened ho
      have hm := hopened.visiting.node_mem
      refine ⟨o.entry o.elements[o.index], (hlookup o.node hm hoid _).mpr (Or.inr ?_), ?_⟩
      · exact ⟨o, ho, rfl, _, List.getElem?_eq_getElem hmore, rfl⟩
      · exact fun handle hbranch => absurd hbranch (by simp [OpenLoop.entry])
    · rcases hlive with ⟨hmem, -⟩ | ⟨v, hv, hid, hit, hstatus, hbranch⟩
      · exact absurd hmem hinside
      obtain ⟨m, hm, hmid⟩ := hc.exists_node_of_visited hp (mem_visitsIn.mp hv)
      obtain ⟨found, hfound, hsignal⟩ := hc.exists_completedIn hp (mem_visitsIn.mp hv) hstatus
      refine ⟨found, (hlookup m hm (hmid.trans hid) found).mpr (Or.inl ⟨?_, ?_⟩), fun handle h => ?_⟩
      · rw [hmid, hid, ← hscope]
        exact hinside
      · rw [hit, ← hid, ← hmid, hp.scope_id hm] at hfound
        exact hfound
      · exact hbranch handle (Signal.bind_branch?_eq_some.mp (hsignal ▸ h))

theorem Reachable.isActive_iff (hp : s.plan.Lawful) (hc : s.Reachable c)
    (hlevel : s.plan.Level c.run.journal loops frame due)
    (hstacked : s.plan.Stacked c.run.journal loops) (hn : n ∈ due) :
    n.isActive (frame :: (placeOf loops).enclosing) = true ↔
      s.plan.ActiveIn (visitsIn c.run.journal) n (placeOf loops).iteration :=
  isActive_iff_activeIn fun _ hb => hc.isLive_iff_liveIn hp hlevel hstacked hn hb

/-- A binding that the whole run says is live was so when the turn came to its node, unless the node
feeds itself. -/
theorem Reachable.liveIn_of_later (hp : s.plan.Lawful) (hc : s.Reachable c) {journal : List Entry}
    {todo : List PlannedNode} (hsub : visitsIn journal ⊆ visitsIn c.run.journal)
    (hlevel : s.plan.Level journal loops frame (n :: todo)) (hstacked : s.plan.Stacked journal loops)
    (hb : b ∈ n.forwardBindings) (hne : b.source ≠ n.id)
    (h : s.plan.LiveIn (visitsIn c.run.journal) n (placeOf loops).iteration b) :
    s.plan.LiveIn (visitsIn journal) n (placeOf loops).iteration b := by
  have hn := hlevel.node_mem
  by_cases hinside : b.source ∈ n.scope
  · exact liveIn_of_mem_scope hp hn hb hinside _ _
  rcases h with ⟨hmem, -⟩ | ⟨u, hu, huid, huit, hstatus, hbranch⟩
  · exact absurd hmem hinside
  obtain ⟨m, hm, hmid⟩ := hc.exists_node_of_visited hp (mem_visitsIn.mp hu)
  have hsource := hmid.trans huid
  obtain ⟨v, hv, hvid, hvit⟩ := exists_visit_of_source hp hlevel hstacked hb hm hsource
    (hsource ▸ hinside) (hsource ▸ hne)
  have hit : v.iteration = u.iteration := by rw [hvit, huit, ← hsource, hp.scope_id hm]
  obtain rfl := hc.visit_eq_of_iteration_eq hp (hsub hv) hu (hvid.trans hmid) hit
  exact Or.inr ⟨v, hv, huid, huit, hstatus, hbranch⟩

/-- A node is skipped in an iteration exactly if the visits of the run say that it is not active. -/
theorem Reachable.executed_iff_activeIn (hp : s.plan.Lawful) (hc : s.Reachable c)
    (hn : n ∈ s.plan.nodes) {v : Visit} (hv : v ∈ visitsIn c.run.journal) (hid : v.nodeId = n.id)
    (hlength : v.iteration.length = n.scope.length) :
    v.status ≠ .skipped ↔ s.plan.ActiveIn (visitsIn c.run.journal) n v.iteration := by
  obtain ⟨later, rest, hjournal⟩ := List.append_of_mem (mem_visitsIn.mp hv)
  have hdepth : (s.plan.scope v.nodeId).length = v.iteration.length := by
    rw [hid, hp.scope_id hn, hlength]
  obtain ⟨c₀, loops, frame, m, todo, event, hc₀, rfl, hlevel, hstacked, hvid, hit, hexecuted⟩ :=
    hc.exists_turn hp ⟨later, hjournal.symm⟩ hdepth
  obtain rfl := hp.eq_of_id_eq hlevel.node_mem hn (hvid.symm.trans hid)
  have hsub : visitsIn c₀.run.journal ⊆ visitsIn c.run.journal := by
    intro u hu
    rw [mem_visitsIn] at hu ⊢
    rw [hjournal]
    simp [hu]
  have hactive := hexecuted.trans (hc₀.isActive_iff hp hlevel hstacked List.mem_cons_self)
  rw [← hit] at hactive
  by_cases hstatus : v.status = .skipped
  · refine iff_of_false (fun h => h hstatus) fun hlater => absurd hstatus (hactive.mpr ?_)
    refine hlater.imp fun b hb hlive => ?_
    by_cases hself : b.source = m.id
    · -- A node that is skipped feeds nothing, not even itself.
      rcases hlive with ⟨hmem, -⟩ | ⟨u, hu, huid, huit, hcompleted, -⟩
      · exact absurd (hself ▸ hmem) (hp.not_mem_scope_self m hn)
      rw [hself, hp.scope_id hn, ← hlength, List.take_length] at huit
      obtain rfl := hc.visit_eq_of_iteration_eq hp hu hv (huid.trans (hself.trans hid.symm)) huit
      exact absurd (hstatus.symm.trans hcompleted) (by simp)
    · rw [hit] at hlive ⊢
      exact hc.liveIn_of_later hp hsub hlevel hstacked hb hself hlive
  · exact iff_of_true hstatus ((hactive.mp hstatus).imp fun b _ hlive => hlive.mono hsub)

theorem Reachable.activeIn_of_called (hp : s.plan.Lawful) (hc : s.Reachable c)
    (hn : n ∈ s.plan.nodes) {it : List Nat} {inputs : Dict Value}
    (h : .called n.id it inputs ∈ c.run.journal) :
    s.plan.ActiveIn (visitsIn c.run.journal) n it := by
  obtain ⟨later, rest, c₀, hjournal, hc₀, hwrites⟩ := hc.written_of_mem hp h
  generalize hid : n.id = id at hwrites
  cases hwrites with
  | @called frame m todo loops r _ hactive =>
      obtain ⟨hlevel, -, hstacked⟩ := standing_of_reachable hp hc₀
      obtain rfl := hp.eq_of_id_eq hn hlevel.node_mem hid
      have hearlier := (hc₀.isActive_iff hp hlevel hstacked List.mem_cons_self).mp hactive
      refine hearlier.imp fun b _ hlive => hlive.mono fun u hu => ?_
      rw [mem_visitsIn] at hu ⊢
      rw [hjournal]
      simp [hu]

end RunSettings

end FlowGraph
