import FlowGraph.Proofs.Run.DataFlow
import FlowGraph.Proofs.Run.Results
import FlowGraph.Proofs.Run.Supply

/-!
Runs of plans whose executors conform. Whatever a node completes with fits its outputs, so that every
live binding carries a value, and one of the category of its output.
-/

namespace FlowGraph

open Plan

/-- What a node completes with: values of the categories of the outputs, and on every output that its
successors follow there is one. The `body` output of a loop has values for its body only. -/
structure PlannedNode.Fits (n : PlannedNode) (found : Completed) : Prop where
  typed : n.handles.Typed found.outputs
  filled : ∀ output ∈ n.handles.outputs,
    (∀ handle, found.branch = some handle → handle = output.key) →
    (∀ loop, n.kind.loopHandles? = some loop → output.id ≠ some loop.body) →
    ∃ v, Dict.get? found.outputs output.key = some v

namespace PlannedNode.Fits

variable {n : PlannedNode}

theorem of_yields (hkind : n.kind.loopHandles? = none) {result : NodeResult}
    (h : n.kind.Yields n.handles result) :
    n.Fits ⟨(RunSettings.completion n result).outputs,
      (RunSettings.completion n result).signal.bind Signal.branch?⟩ := by
  refine ⟨?_, fun output houtput hbranch _ => ?_⟩
  · have htyped := h.typed
    cases result <;> exact htyped
  · cases h with
    | outputs _ _ hfilled => exact Option.isSome_iff_exists.mp (hfilled output houtput)
    | collection hloop => exact absurd (hkind.symm.trans hloop) (by simp)
    | branch _ _ _ hfilled =>
        rw [← hbranch _ rfl]
        exact Option.isSome_iff_exists.mp hfilled
    | loopBreak _ hnone | loopContinue _ hnone | flowEnd _ hnone =>
        exact absurd (hnone ▸ houtput) List.not_mem_nil

theorem of_loop {loop : LoopHandles} (hkind : n.kind.loopHandles? = some loop)
    (hamong : loop.Among n.handles) (outputs : Outputs) (collected : List Value) :
    n.Fits ⟨Dict.insert outputs loop.done (.array collected), none⟩ := by
  have hdone : ∀ output : Handle, output.id = some loop.done →
      Dict.get? (Dict.insert outputs loop.done (.array collected)) output.key =
        some (.array collected) := by
    intro output hid
    have hkey : output.key = loop.done := by
      rw [Handle.key, hid]
      rfl
    rw [hkey, Dict.get?_insert_self]
  refine ⟨fun output houtput hany v hv => ?_, fun output houtput _ hbody => ?_⟩
  · rcases hamong.output_cases output houtput with ⟨-, hbody⟩ | ⟨hid, harray⟩
    · exact absurd hbody hany
    · obtain rfl := Option.some.inj ((hdone output hid).symm.trans hv)
      exact harray.symm
  · rcases hamong.output_cases output houtput with ⟨hid, -⟩ | ⟨hid, -⟩
    · exact absurd hid (hbody loop hkind)
    · exact ⟨_, hdone output hid⟩

end PlannedNode.Fits

def Plan.Conforming (p : Plan) : Prop :=
  ∀ n ∈ p.nodes, Conforms n.kind n.handles n.executor

namespace RunSettings

variable {s : RunSettings} {registry : Registry} {flow : Flow} {c : Snapshot} {v : OpenVisit}
  {loops : List OpenLoop} {r : RunState}

/-- What is answered is what the kind of the node allows. -/
theorem Reachable.yields (hp : s.plan.Lawful) (hconforms : s.plan.Conforming) {value : NodeResult}
    (h : s.Reachable ⟨.answered v (.ok value), loops, r⟩) :
    v.node.kind.Yields v.node.handles value := by
  obtain - | ⟨hvisiting, -, -, -⟩ := standing_of_reachable hp h
  have hnode := hvisiting.node_mem
  have hcall := h.callResult
  generalize hvalue : Except.ok value = result at hcall
  cases hcall with
  | @returned ctx => exact (hconforms v.node hnode).yields ctx value hvalue.symm
  | _ => exact absurd hvalue (by simp)

theorem Reachable.yields_of_mem (hp : s.plan.Lawful) (hconforms : s.plan.Conforming)
    (hc : s.Reachable c) {n : PlannedNode} (hn : n ∈ s.plan.nodes) {it : List Nat} {value : NodeResult}
    (h : .answered n.id it (.ok value) ∈ c.run.journal) :
    n.kind.Yields n.handles value ∧ it.length = n.scope.length := by
  obtain ⟨v, loops, r, hv, hid, rfl⟩ := hc.exists_answered hp h
  obtain - | ⟨hvisiting, -, -, hstacked⟩ := standing_of_reachable hp hv
  have hnode := hvisiting.node_mem
  obtain rfl := hp.eq_of_id_eq hnode hn hid
  refine ⟨hv.yields hp hconforms, ?_⟩
  rw [length_iteration_placeOf,
    hstacked.scope_eq hp hn (hvisiting.level.getLast?_scope hp List.mem_cons_self), length_idsOf]

theorem Reachable.fits_of_settling (hp : s.plan.Lawful) (hconforms : s.plan.Conforming)
    {completion : Completion} (h : s.Reachable ⟨.settling v (.ok completion), loops, r⟩) :
    v.node.Fits ⟨completion.outputs, completion.signal.bind Signal.branch?⟩ := by
  rcases h.exists_of_settling_ok hp with ⟨hkind, value, hanswered, rfl⟩ |
    ⟨loop, outputs, collected, exit, hkind, rfl⟩
  · exact .of_yields hkind (hanswered.yields hp hconforms)
  · obtain - | - | ⟨hvisiting, -⟩ := standing_of_reachable hp h
    have hnode := hvisiting.node_mem
    exact .of_loop hkind ((hconforms v.node hnode).among loop hkind) outputs collected

/-- Everything that the journal tells of fits the node that completed with it. -/
theorem Reachable.fits_of_completedIn (hp : s.plan.Lawful) (hconforms : s.plan.Conforming)
    (hc : s.Reachable c) {m : PlannedNode} (hm : m ∈ s.plan.nodes) {it : List Nat} {found : Completed}
    (h : CompletedIn c.run.journal m.id it found) : m.Fits found := by
  obtain ⟨signal, duration, hbranch, hinfix⟩ := h
  obtain ⟨later, earlier, hjournal⟩ := hinfix
  have hsuffix : .visited ⟨m.id, it, .completed, signal, duration⟩ ::
      .sent (.nodeCompleted m.id found.outputs duration) :: earlier <:+ c.run.journal :=
    ⟨later, by rw [← hjournal]; simp⟩
  obtain ⟨c₀, hc₀, hwrites⟩ := hc.written hp hsuffix
  generalize hrest : Entry.sent (.nodeCompleted m.id found.outputs duration) :: earlier = rest at hwrites
  generalize hid : m.id = id at hwrites hrest
  cases hwrites with
  | @completed v completion loops r =>
      obtain - | - | ⟨hvisiting, -⟩ := standing_of_reachable hp hc₀
      obtain rfl := hp.eq_of_id_eq hm hvisiting.node_mem hid
      have hfits := hc₀.fits_of_settling hp hconforms
      obtain ⟨hsent, -⟩ := List.cons.inj hrest
      obtain ⟨-, houtputs, -⟩ := Event.nodeCompleted.inj (Entry.sent.inj hsent)
      obtain ⟨outputs, branch⟩ := found
      obtain rfl : outputs = completion.outputs := houtputs
      obtain rfl : completion.signal.bind Signal.branch? = branch := hbranch
      exact hfits

/-- What comes over a binding from an output of a definite category is of that category. -/
theorem Reachable.typed_of_carries (hp : s.plan.Lawful) (hconforms : s.plan.Conforming)
    (hc : s.Reachable c) {earlier : List Entry} (hearlier : earlier <:+ c.run.journal)
    {n m : PlannedNode} {b : Binding} {output input : Handle} {edges : List FlowEdge}
    (hjoins : s.plan.Joins edges n b m output input) (hany : output.category ≠ .any)
    {it : List Nat} {value : Value} (h : s.plan.Carries earlier n it b value) :
    value.category = output.category := by
  have hm := hjoins.source_mem
  cases h with
  | @completed m' signal duration outputs hm' hid _ _ houtputs _ hvalue =>
      obtain rfl : m = m' := hp.eq_of_id_eq hm hm' (hjoins.source_eq.trans hid.symm)
      have hcompleted : CompletedIn c.run.journal m.id (it.take m.scope.length)
          ⟨outputs, signal.bind Signal.branch?⟩ :=
        ⟨signal, duration, rfl, houtputs.trans hearlier.isInfix⟩
      exact (hc.fits_of_completedIn hp hconforms hm hcompleted).typed output hjoins.output_mem hany value
        (hjoins.output_key ▸ hvalue)
  | element hm' hid _ hkind hhandle =>
      obtain rfl := hp.eq_of_id_eq hm' hm (hid.trans hjoins.source_eq.symm)
      have hamong := (hconforms _ hm).among _ hkind
      rcases hamong.output_cases output hjoins.output_mem with ⟨-, hbody⟩ | ⟨hdone, -⟩
      · exact absurd hbody hany
      · have hkey := hjoins.output_key.trans hhandle
        rw [Handle.key, hdone] at hkey
        exact absurd hkey.symm hamong.body_ne_done

section

variable {frame : Frame} {due : List PlannedNode} {n : PlannedNode}

/-- Every live binding of a node whose turn it is carries a value. -/
theorem Reachable.exists_value_of_isLive (hp : s.plan.Lawful) (hwired : s.plan.Wired registry flow)
    (hconforms : s.plan.Conforming) (hc : s.Reachable c)
    (hlevel : s.plan.Level c.run.journal loops frame due)
    (hstacked : s.plan.Stacked c.run.journal loops) (hn : n ∈ due) {b : Binding}
    (hb : b ∈ n.forwardBindings) (hlive : isLive (frame :: (placeOf loops).enclosing) b = true) :
    ∃ value, liveValue (frame :: (placeOf loops).enclosing) b = some value := by
  have hnode := hlevel.planned n hn
  have hscope := hstacked.scope_eq hp hnode (hlevel.getLast?_scope hp hn)
  obtain ⟨m, output, input, hjoins⟩ := hwired.joined n hnode b (List.mem_of_mem_filter hb)
  obtain ⟨hm, hid⟩ := And.intro hjoins.source_mem hjoins.source_eq
  have hprefix := hp.scope_of_binding n hnode b hb m hm hid
  obtain ⟨found, hlookup, hbranch⟩ := isLive_iff.mp hlive
  have hvalue : ∃ value, Dict.get? found.outputs b.sourceHandle = some value := by
    rw [← hid, lookup_iff hlevel hp hstacked hm (hscope ▸ hprefix)] at hlookup
    rcases hlookup with ⟨houtside, hcompleted⟩ | ⟨o, ho, hoid, element, -, rfl⟩
    · -- The source has completed, and not as the loop whose body the node is in.
      have hfits := hc.fits_of_completedIn hp hconforms hm hcompleted
      rw [← hjoins.output_key] at hbranch ⊢
      refine hfits.filled output hjoins.output_mem hbranch fun loop hloop hbody => ?_
      have hinside := hwired.body_inside n hnode b hb m output input hjoins loop
        (NodeKind.loopHandles?_eq_some.mp hloop) hbody
      exact houtside (hscope ▸ hinside)
    · obtain ⟨outer, hopened, -, -, -⟩ := hstacked.exists_opened ho
      obtain rfl := hp.eq_of_id_eq hm hopened.visiting.node_mem
        hoid.symm
      have hinside : o.node.id ∈ n.scope := hscope ▸ mem_idsOf.mpr ⟨o, ho, rfl⟩
      rw [hp.handle_of_binding n hnode b hb o.node hm hid hinside _ hopened.kind_eq]
      exact ⟨element, if_pos rfl⟩
  obtain ⟨value, hvalue⟩ := hvalue
  exact ⟨value, liveValue_iff.mpr ⟨found, hlookup, hbranch, hvalue⟩⟩

theorem Reachable.supplies (hp : s.plan.Lawful) (hwired : s.plan.Wired registry flow)
    (hconforms : s.plan.Conforming) (hc : s.Reachable c)
    (hlevel : s.plan.Level c.run.journal loops frame due)
    (hstacked : s.plan.Stacked c.run.journal loops) (hn : n ∈ due) :
    s.plan.Supplies flow.edges n (frame :: (placeOf loops).enclosing) := by
  refine ⟨fun b hb hlive => ?_, fun b hb m output input hjoins hany v hv => ?_⟩
  · exact hc.exists_value_of_isLive hp hwired hconforms hlevel hstacked hn hb hlive
  · have hcarries := hc.carries_of_liveValue hp hlevel hstacked hn hb hv
    exact hc.typed_of_carries hp hconforms (List.suffix_refl _) hjoins hany hcarries

end

end RunSettings

end FlowGraph
