import FlowGraph.Proofs.Run.Kept
import Mathlib.Data.List.Perm.Subperm

/-!
A run goes through the small steps. The engine bounds how deep passes may be nested; a loop that is
visited inside of another one has a greater scope, so the bound is never met, and every pass of the
engine is a sequence of steps.
-/

namespace FlowGraph

open Plan RunSettings

/-- A loop that has got its collection, and those around it, are different loops of the plan. -/
theorem Plan.Opened.length_le {p : Plan} {journal : List Entry} {o : OpenLoop} {loops : List OpenLoop}
    (h : p.Opened journal loops o) (hstacked : p.Stacked journal loops) (hp : p.Lawful) :
    (o :: loops).length ≤ p.loops.length := by
  have hlevel := h.visiting.level
  have hnode := hlevel.node_mem
  have hscope := hstacked.scope_eq hp hnode (hlevel.getLast?_scope hp List.mem_cons_self)
  have hnodup : (o.node.id :: o.node.scope).Nodup :=
    List.nodup_cons.mpr ⟨hp.not_mem_scope_self o.node hnode, hp.scope_nodup o.node hnode⟩
  have hsub : o.node.id :: o.node.scope ⊆ p.loops.map (·.id) := by
    intro id hid
    rcases List.mem_cons.mp hid with rfl | hid
    · rw [hp.loops_eq]
      refine List.mem_map_of_mem (List.mem_filter.mpr ⟨hnode, ?_⟩)
      rw [h.kind_eq]
      rfl
    · obtain ⟨l, hl, rfl⟩ := hp.mem_loops_of_mem_scope hnode hid
      exact List.mem_map_of_mem hl
  have hlength := (hnodup.subperm hsub).length_le
  rw [hscope, List.length_cons, length_idsOf, List.length_map] at hlength
  exact hlength

theorem Plan.Stacked.length_le {p : Plan} {journal : List Entry} {loops : List OpenLoop}
    (h : p.Stacked journal loops) (hp : p.Lawful) : loops.length ≤ p.loops.length := by
  cases loops with
  | nil => exact Nat.zero_le _
  | cons o loops =>
      obtain ⟨hopened, -, -, hstacked⟩ := h
      exact hopened.length_le hstacked hp

namespace RunSettings

variable {s : RunSettings}

/-- Whether passes that may be nested so deep are sequences of steps. -/
def PassesStep (s : RunSettings) (depth : Nat) : Prop :=
  ∀ loops frame r, loops.length + depth = s.plan.loops.length + 1 →
    s.Reachable ⟨.passing frame (s.plan.regionNodes (placeOf loops).region), loops, r⟩ →
    ∃ r', (s.pass depth (placeOf loops) frame r).run = r'.log (.passed (placeOf loops).region
        (placeOf loops).iteration (s.pass depth (placeOf loops) frame r).exit) ∧
      s.Reachable ⟨.leaving (s.pass depth (placeOf loops) frame r).frame
        (s.pass depth (placeOf loops) frame r).exit, loops, r'⟩

/-- The phase in which a loop has been gone through. -/
def afterLoop (o : OpenLoop) (looped : Looped) : Phase :=
  match looped.exit with
  | .failed failure => .leaving o.frame (.failed failure)
  | exit => .settling o.toOpenVisit (.ok ((o.collect looped.collected).completion exit))

theorem afterLoop_advance (o : OpenLoop) (values : List Value) (looped : Looped) :
    afterLoop (o.advance values) looped =
      afterLoop o { looped with collected := values ++ looped.collected } := by
  obtain ⟨exit, collected, run⟩ := looped
  cases exit <;> simp [afterLoop, OpenLoop.advance, OpenLoop.collect, OpenLoop.completion]

variable {depth : Nat} {loops : List OpenLoop}

theorem Reachable.iterate (hpass : s.PassesStep depth)
    (hdepth : loops.length + 1 + depth = s.plan.loops.length + 1) {elements : List Value}
    {o : OpenLoop} {r : RunState} (hrest : o.elements.drop o.index = elements)
    (h : s.Reachable ⟨.looping, o :: loops, r⟩) :
    s.Reachable ⟨afterLoop o (s.iterate (s.pass depth) (placeOf loops) o.node o.handles o.started
        o.elements.length o.frame o.index elements r), loops,
      (s.iterate (s.pass depth) (placeOf loops) o.node o.handles o.started o.elements.length o.frame
        o.index elements r).run⟩ := by
  induction elements generalizing o r with
  | nil =>
      have hover := h.step (.exhaust (by simpa using hrest))
      have hcollect : o.collect [] = o := by
        simp [OpenLoop.collect]
      rw [RunSettings.iterate, afterLoop, hcollect]
      exact hover
  | cons element elements ih =>
      have hmore : o.index < o.elements.length := by
        by_contra hdone
        rw [List.drop_eq_nil_of_le (by omega)] at hrest
        exact absurd hrest (by simp)
      rw [List.drop_eq_getElem_cons hmore] at hrest
      obtain ⟨rfl, hdrop⟩ := List.cons.inj hrest
      rw [RunSettings.iterate]
      split_ifs with hcancelled
      · exact (h.step (.cancel hmore hcancelled)).step .settle
      have hentered := h.step (.enter hmore (by simpa using hcancelled))
      obtain ⟨r', hrun, hleft⟩ := hpass (o :: loops) _ _ hdepth hentered
      rw [placeOf_cons] at hrun hleft
      dsimp only
      generalize hpassed : s.pass depth (inside (placeOf loops) o.node.id o.index o.frame)
        [(o.node.id, o.entry o.elements[o.index])]
        (s.send (.loopIteration o.node.id o.index o.elements.length) r) = passed at hrun hleft
      rw [OpenLoop.entry] at hpassed
      rw [hpassed, hrun]
      obtain ⟨exit, frame, run⟩ := passed
      have hnext : exit = .finished ∨ exit = .loopContinue → _ := fun hexit =>
        ih (o := o.advance (o.gathered loops o.elements[o.index] frame exit)) hdrop
          (hleft.step (.again hmore hexit))
      rw [afterLoop_advance, OpenLoop.gathered, placeOf_cons] at hnext
      cases exit with
      | finished => exact hnext (Or.inl rfl)
      | loopContinue => exact hnext (Or.inr rfl)
      | loopBreak =>
          have hclosed := hleft.step (.close hmore (Or.inl ⟨rfl, rfl⟩))
          rw [OpenLoop.gathered, placeOf_cons] at hclosed
          exact hclosed
      | ended id =>
          have hclosed := hleft.step (.close hmore (Or.inr ⟨id, rfl, rfl⟩))
          rw [OpenLoop.gathered, placeOf_cons] at hclosed
          exact hclosed
      | failed failure =>
          have hleft := hleft.step .abandon
          rw [placeOf_cons] at hleft
          exact hleft

theorem Reachable.visitLoop (hpass : s.PassesStep depth)
    (hdepth : loops.length + 1 + depth = s.plan.loops.length + 1) {frame : Frame} {n : PlannedNode}
    {todo : List PlannedNode} {r : RunState} {handles : LoopHandles}
    (hkind : n.kind.loopHandles? = some handles)
    (h : s.Reachable ⟨.answered ⟨n, r.clock, frame, todo⟩
      (s.invoke (placeOf loops) frame n (s.start n r)).1, loops,
      (s.invoke (placeOf loops) frame n (s.start n r)).2⟩) :
    s.Reachable ⟨.next (s.visitLoop (s.pass depth) (placeOf loops) n handles frame r).exit
      (s.visitLoop (s.pass depth) (placeOf loops) n handles frame r).frame todo, loops,
      (s.visitLoop (s.pass depth) (placeOf loops) n handles frame r).run⟩ := by
  rw [RunSettings.visitLoop]
  generalize s.invoke (placeOf loops) frame n (s.start n r) = called at h
  obtain ⟨result, run⟩ := called
  dsimp only at h ⊢
  cases hsplit : result.bind (splitCollection handles) with
  | error cause => exact (h.step (.refuse hkind hsplit)).step .settle
  | ok split =>
      obtain ⟨elements, outputs⟩ := split
      have hlaunched := h.step (.launch hkind hsplit)
      have hrest : elements.drop 0 = elements := List.drop_zero
      have hlooped := hlaunched.iterate hpass hdepth hrest
      dsimp only at hlooped ⊢
      generalize s.iterate (s.pass depth) (placeOf loops) n handles r.clock elements.length frame 0
        elements _ = looped at hlooped
      obtain ⟨exit, collected, run⟩ := looped
      cases exit with
      | failed failure => exact hlooped
      | _ => exact hlooped.step .settle

theorem Reachable.visitMember (hpass : s.PassesStep depth)
    (hdepth : loops.length + 1 + depth = s.plan.loops.length + 1) {frame : Frame} {n : PlannedNode}
    {todo : List PlannedNode} {r : RunState}
    (h : s.Reachable ⟨.passing frame (n :: todo), loops, r⟩) :
    s.Reachable ⟨.next (s.visitMember (s.pass depth) (placeOf loops) n frame r).exit
      (s.visitMember (s.pass depth) (placeOf loops) n frame r).frame todo, loops,
      (s.visitMember (s.pass depth) (placeOf loops) n frame r).run⟩ := by
  rw [RunSettings.visitMember]
  split_ifs with hactive
  · have hcalled := h.step (.call hactive)
    cases hkind : n.kind.loopHandles? with
    | some handles => exact hcalled.visitLoop hpass hdepth hkind
    | none => exact (hcalled.step (.judge hkind)).step .settle
  · exact h.step (.skip (by simpa using hactive))

theorem Reachable.visitAll (hpass : s.PassesStep depth)
    (hdepth : loops.length + 1 + depth = s.plan.loops.length + 1) {frame : Frame}
    {todo : List PlannedNode} {r : RunState} (h : s.Reachable ⟨.passing frame todo, loops, r⟩) :
    s.Reachable ⟨.leaving (s.visitAll (s.pass depth) (placeOf loops) todo frame r).frame
      (s.visitAll (s.pass depth) (placeOf loops) todo frame r).exit, loops,
      (s.visitAll (s.pass depth) (placeOf loops) todo frame r).run⟩ := by
  induction todo generalizing frame r with
  | nil => exact h.step .finish
  | cons n todo ih =>
      have hmember := h.visitMember hpass hdepth
      rw [RunSettings.visitAll]
      generalize s.visitMember (s.pass depth) (placeOf loops) n frame r = passed at hmember
      obtain ⟨exit, frame, run⟩ := passed
      cases exit with
      | finished => exact ih hmember
      | _ => exact hmember

theorem passesStep (hp : s.plan.Lawful) (depth : Nat) : s.PassesStep depth := by
  induction depth with
  | zero =>
      intro loops frame r hdepth h
      cases standing_of_reachable hp h with
      | passing _ _ hstacked =>
          have hlength := hstacked.length_le hp
          omega
  | succ depth ih =>
      intro loops frame r hdepth h
      exact ⟨_, rfl, h.visitAll ih (by omega)⟩

/-- A run comes to the end of its pass through the top level, and is concluded there. -/
theorem exists_leaving_of_execute (hp : s.plan.Lawful) : ∃ frame exit r,
    s.Reachable ⟨.leaving frame exit, [], r⟩ ∧
      s.execute = s.finish exit (r.log (.passed none [] exit)) := by
  obtain ⟨r', hrun, hleft⟩ := passesStep hp (s.plan.loops.length + 1) [] []
    (s.send (.runStarted s.plan.start) s.initial) (by simp) .begin
  refine ⟨_, _, r', hleft, ?_⟩
  rw [execute]
  show s.finish _ (s.pass (s.plan.loops.length + 1) (placeOf []) [] _).run = _
  rw [hrun]
  rfl

/-- The last state of a run is one that its steps come to. -/
theorem reachable_execute (hp : s.plan.Lawful) : s.Reachable ⟨.ended, [], s.execute.2⟩ := by
  obtain ⟨frame, exit, r, hleft, hexecute⟩ := exists_leaving_of_execute hp
  rw [hexecute]
  exact hleft.step .conclude

end RunSettings

end FlowGraph
