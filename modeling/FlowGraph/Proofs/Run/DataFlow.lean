import FlowGraph.Proofs.Run.Frames
import FlowGraph.Proofs.Run.Visits
import FlowGraph.Standard

/-!
The data flow of a run. The engine finds the inputs of a node in its frames; here they are found in the
record of the run. The value of a binding is the one with which its source completed in the iteration
that the call belongs to, as far as the source lies in loops around it; or it is the element of a loop
around the node that the iteration is about. So no value comes from another iteration, from a visit
that was skipped or chose another output, or from one that comes later.
-/

namespace FlowGraph

open Plan

namespace Plan

variable (p : Plan)

/-- Whether the record of a run says that a binding carries a value to a node in an iteration. -/
inductive Carries (journal : List Entry) (n : PlannedNode) (iteration : List Nat) (b : Binding)
    (value : Value) : Prop
  /-- The one visit of the source in its part of the iteration completed with the value, and chose no
  other output. -/
  | completed {m signal duration outputs} (hm : m ∈ p.nodes) (hid : m.id = b.source)
      (houtside : m.id ∉ n.scope)
      (hvisit : visitsAt journal m.id (iteration.take m.scope.length) =
        [⟨m.id, iteration.take m.scope.length, .completed, signal, duration⟩])
      (houtputs : [.visited ⟨m.id, iteration.take m.scope.length, .completed, signal, duration⟩,
        .sent (.nodeCompleted m.id outputs duration)] <:+: journal)
      (hbranch : ∀ handle, signal = some (.branch handle) → handle = b.sourceHandle)
      (hvalue : Dict.get? outputs b.sourceHandle = some value)
  /-- The source is a loop around the node, whose visit has got a collection and has not ended; the
  value is the element that the iteration is about. -/
  | element {m handles values elements} {j k : Nat} (hm : m ∈ p.nodes) (hid : m.id = b.source)
      (hscope : n.scope[j]? = some m.id) (hkind : m.kind.loopHandles? = some handles)
      (hhandle : b.sourceHandle = handles.body)
      (hcurrent : visitsAt journal m.id (iteration.take j) = [])
      (hanswer : ∀ result, .answered m.id (iteration.take j) result ∈ journal ↔
        result = .ok (.outputs values))
      (hcollection : Dict.get? values handles.body = some (.array elements))
      (hindex : iteration[j]? = some k) (hvalue : elements[k]? = some value)

variable {p}

theorem Carries.cons_sent {journal : List Entry} {n : PlannedNode} {it : List Nat} {b : Binding}
    {value : Value} (h : p.Carries journal n it b value) (event : Event) :
    p.Carries (.sent event :: journal) n it b value := by
  cases h with
  | completed hm hid houtside hvisit houtputs hbranch hvalue =>
      exact .completed hm hid houtside hvisit (List.infix_cons houtputs) hbranch hvalue
  | element hm hid hscope hkind hhandle hcurrent hanswer hcollection hindex hvalue =>
      refine .element hm hid hscope hkind hhandle hcurrent (fun result => ?_) hcollection hindex hvalue
      rw [← hanswer result, List.mem_cons, or_iff_right (by simp)]

theorem Carries.of_cons_sent {journal : List Entry} {n : PlannedNode} {it : List Nat} {b : Binding}
    {value : Value} {event : Event} (h : p.Carries (.sent event :: journal) n it b value) :
    p.Carries journal n it b value := by
  cases h with
  | completed hm hid houtside hvisit houtputs hbranch hvalue =>
      refine .completed hm hid houtside hvisit ?_ hbranch hvalue
      rcases List.infix_cons_iff.mp houtputs with hhead | htail
      · obtain ⟨rest, hrest⟩ := hhead
        exact absurd (List.cons.inj hrest).1 (by simp)
      · exact htail
  | element hm hid hscope hkind hhandle hcurrent hanswer hcollection hindex hvalue =>
      refine .element hm hid hscope hkind hhandle hcurrent (fun result => ?_) hcollection hindex hvalue
      rw [← hanswer result, List.mem_cons, or_iff_right (by simp)]

theorem liveValue_of_carries {journal : List Entry} {loops : List OpenLoop} {frame : Frame}
    {due : List PlannedNode} {n : PlannedNode} {b : Binding} {value : Value} (hp : p.Lawful)
    (hlevel : p.Level journal loops frame due) (hstacked : p.Stacked journal loops) (hn : n ∈ due)
    (hb : b ∈ n.forwardBindings) (h : p.Carries journal n (placeOf loops).iteration b value) :
    liveValue (frame :: (placeOf loops).enclosing) b = some value := by
  have hnode := hlevel.planned n hn
  have hscope := hstacked.scope_eq hp hnode (hlevel.getLast?_scope hp hn)
  rw [liveValue_iff]
  cases h with
  | @completed m signal duration outputs hm hid houtside _ houtputs hbranch hvalue =>
      have hprefix := hp.scope_of_binding n hnode b hb m hm hid
      refine ⟨⟨outputs, signal.bind Signal.branch?⟩, ?_, fun handle hhandle => ?_, hvalue⟩
      · rw [← hid, lookup_iff hlevel hp hstacked hm (hscope ▸ hprefix)]
        exact Or.inl ⟨hscope ▸ houtside, signal, duration, rfl, houtputs⟩
      · exact hbranch handle (Signal.bind_branch?_eq_some.mp hhandle)
  | @element m handles values elements j k hm hid hsource hkind hhandle _ hanswer hcollection hindex
      hvalue =>
      have hprefix := hp.scope_of_binding n hnode b hb m hm hid
      obtain ⟨outer, o, ho, hoid, hopened, -, htake, hindex'⟩ :=
        hstacked.exists_opened_at (hscope ▸ hp.scope_nodup n hnode) (hscope ▸ hsource)
      obtain ⟨values', hcollection', hanswer'⟩ := hopened.exists_answer
      obtain rfl := hp.eq_of_id_eq hm hopened.visiting.node_mem
        hoid.symm
      obtain rfl : handles = o.handles := Option.some.inj (hkind.symm.trans hopened.kind_eq)
      rw [htake] at hanswer
      have hvalues := (hanswer _).mp ((hanswer' _).mpr rfl)
      obtain rfl : values' = values := NodeResult.outputs.inj (Except.ok.inj hvalues)
      obtain rfl : o.elements = elements :=
        Value.array.inj (Option.some.inj (hcollection'.symm.trans hcollection))
      obtain rfl := Option.some.inj (hindex'.symm.trans hindex)
      refine ⟨o.entry value, ?_, fun handle hbranch => absurd hbranch (by simp [OpenLoop.entry]), ?_⟩
      · rw [← hid, lookup_iff hlevel hp hstacked hm (hscope ▸ hprefix)]
        exact Or.inr ⟨o, ho, rfl, value, hvalue, rfl⟩
      · rw [OpenLoop.entry, Dict.get?_cons, if_pos hhandle.symm]

end Plan

namespace RunSettings

variable {s : RunSettings} {c : Snapshot} {loops : List OpenLoop} {frame : Frame}
  {due : List PlannedNode} {n : PlannedNode} {b : Binding} {value : Value}

theorem Reachable.carries_of_liveValue (hp : s.plan.Lawful) (hc : s.Reachable c)
    (hlevel : s.plan.Level c.run.journal loops frame due)
    (hstacked : s.plan.Stacked c.run.journal loops) (hn : n ∈ due) (hb : b ∈ n.forwardBindings)
    (h : liveValue (frame :: (placeOf loops).enclosing) b = some value) :
    s.plan.Carries c.run.journal n (placeOf loops).iteration b value := by
  have hnode := hlevel.planned n hn
  have hscope := hstacked.scope_eq hp hnode (hlevel.getLast?_scope hp hn)
  obtain ⟨found, hlookup, hbranch, hvalue⟩ := liveValue_iff.mp h
  obtain ⟨m, hm, hid, -⟩ := exists_of_lookup_eq_some hlevel hp hstacked hlookup
  have hprefix := hp.scope_of_binding n hnode b hb m hm hid
  rw [← hid, lookup_iff hlevel hp hstacked hm (hscope ▸ hprefix)] at hlookup
  rcases hlookup with ⟨houtside, hcompleted⟩ | ⟨o, ho, hoid, element, helement, rfl⟩
  · obtain ⟨signal, duration, hsignal, houtputs⟩ := hcompleted
    refine .completed hm hid (hscope ▸ houtside)
      (hc.visitsAt_eq hp (houtputs.subset List.mem_cons_self)) houtputs (fun handle hhandle => ?_) hvalue
    exact hbranch handle (hsignal ▸ Signal.bind_branch?_eq_some.mpr hhandle)
  · obtain ⟨outer, hopened, -, hit, hids⟩ := hstacked.exists_opened ho
    obtain ⟨hsource, htake, hindex⟩ := getElem?_of_prefix hit hids
    obtain ⟨values, hcollection, hanswer⟩ := hopened.exists_answer
    obtain rfl := hp.eq_of_id_eq hm hopened.visiting.node_mem
      hoid.symm
    rw [OpenLoop.entry, Dict.get?_cons, Dict.get?_nil] at hvalue
    split at hvalue
    next hhandle =>
      obtain rfl := Option.some.inj hvalue
      refine .element hm hid (hscope ▸ hsource) hopened.kind_eq hhandle.symm ?_ ?_ hcollection hindex
        helement
      · rw [htake, visitsAt, List.filter_eq_nil_iff]
        intro v hv
        simp only [decide_eq_true_eq]
        rintro ⟨hvid, hvit⟩
        exact (hopened.visiting.unvisited v (mem_visitsIn.mp hv) hvid).ne hvit
      · rw [htake]
        exact hanswer
    · exact absurd hvalue (by simp)

end RunSettings

/-- Whatever the executor of a node is called with has come over its bindings in the iteration of the
call: exactly the values that the record says they carry. -/
theorem Registry.called_with_carried_values {r : Registry} {flow : Flow} {start : Option String}
    {s : RunSettings} (h : r.resolve flow start = .ok s.plan) {id : String} {it : List Nat}
    {inputs : Dict Value} {earlier : List Entry}
    (hcalled : .called id it inputs :: earlier <:+ s.execute.2.journal) :
    ∃ n ∈ s.plan.nodes, n.id = id ∧ it.length = n.scope.length ∧
      ∃ frames, n.resolveInputs frames = .ok inputs ∧
        ∀ b ∈ n.forwardBindings, ∀ value,
          liveValue frames b = some value ↔ s.plan.Carries earlier n it b value := by
  have hp := r.lawful_of_resolve_eq_ok h
  obtain ⟨c, hc, hwrites⟩ := (RunSettings.reachable_execute hp).written hp hcalled
  cases hwrites with
  | called _ hinputs =>
      obtain ⟨hlevel, -, hstacked⟩ := standing_of_reachable hp hc
      have hnode := hlevel.planned _ List.mem_cons_self
      refine ⟨_, hnode, rfl, ?_, _, hinputs, fun b hb value => ⟨fun hvalue => ?_, fun hcarries => ?_⟩⟩
      · rw [hstacked.scope_eq hp hnode (hlevel.getLast?_scope hp List.mem_cons_self), length_idsOf,
          length_iteration_placeOf]
      · exact (hc.carries_of_liveValue hp hlevel hstacked List.mem_cons_self hb hvalue).cons_sent _
      · exact liveValue_of_carries hp hlevel hstacked List.mem_cons_self hb hcarries.of_cons_sent

namespace Registry

/-- Two lists are gone through, of which the second one is empty; what is done with an item needs the
inputs of the run too. -/
def nestedLists : Flow where
  nodes := [⟨"s", "start", .null⟩,
    ⟨"list", "json", .object [("value",
      .array [.array [.object [], .object [("a", .bool true)]], .array []])]⟩,
    ⟨"outer", "forEach", .null⟩, ⟨"inner", "forEach", .null⟩, ⟨"item", "merge", .null⟩,
    ⟨"after", "log", .null⟩]
  edges := [⟨"e1", "s", none, "list", none⟩, ⟨"e2", "list", none, "outer", some "items"⟩,
    ⟨"e3", "outer", some "item", "inner", some "items"⟩, ⟨"e4", "inner", some "item", "item", none⟩,
    ⟨"e5", "s", none, "item", none⟩, ⟨"e6", "outer", some "done", "after", none⟩]

/-- The call, if the entry is one: the node, the iteration and the inputs. -/
def call? : Entry → Option (String × List Nat × Dict Value)
  | .called id it inputs => some (id, it, inputs)
  | _ => none

/-- The second item of the first list is handed on together with the inputs of the run. -/
theorem item_called_with_carried_values :
    ∃ p, Standard.registry.resolve nestedLists none = .ok p ∧
      ∃ earlier, .called "item" [0, 1] [("", .array [.object [("a", .bool true)], .object []])] ::
          earlier <:+ (RunSettings.execute { plan := p }).2.journal ∧
        ∃ n ∈ p.nodes, n.id = "item" ∧ n.scope.length = 2 ∧
          ∃ frames, n.resolveInputs frames =
              .ok [("", .array [.object [("a", .bool true)], .object []])] ∧
            ∀ b ∈ n.forwardBindings, ∀ value,
              liveValue frames b = some value ↔ p.Carries earlier n [0, 1] b value := by
  have hrun : ((Standard.registry.resolve nestedLists none).toOption.map fun p => decide
      (("item", [0, 1], [("", .array [.object [("a", .bool true)], .object []])]) ∈
        (RunSettings.execute { plan := p }).2.journal.filterMap call?)) = some true := by
    decide +kernel
  obtain ⟨p, hp, hcalled⟩ := Option.map_eq_some_iff.mp hrun
  have hok := eq_ok_of_toOption_eq_some hp
  obtain ⟨e, he, hcall⟩ := List.mem_filterMap.mp (of_decide_eq_true hcalled)
  cases e with
  | called id it inputs =>
      obtain ⟨rfl, hrest⟩ := Prod.mk.inj (Option.some.inj hcall)
      obtain ⟨rfl, rfl⟩ := Prod.mk.inj hrest
      obtain ⟨later, earlier, hjournal⟩ := List.append_of_mem he
      have hsuffix : _ <:+ (RunSettings.execute { plan := p }).2.journal := ⟨later, hjournal.symm⟩
      obtain ⟨n, hn, hid, hlength, hinputs⟩ :=
        called_with_carried_values (s := { plan := p }) hok hsuffix
      exact ⟨p, hok, earlier, hsuffix, n, hn, hid, hlength.symm, hinputs⟩
  | _ => exact absurd hcall (by simp [call?])

end Registry

end FlowGraph
