import FlowGraph.Proofs.Run.Standing
import FlowGraph.Run.Inputs

/-!
What the frames of the passes under way hold together. A node is looked up in the innermost pass first;
it is found in the one pass that it takes part in, as it completed there, or, if it is a loop with an
iteration under way, inside of that iteration, as the element that the iteration is about.
-/

namespace FlowGraph

theorem lookup_cons (frame : Frame) (frames : List Frame) (id : String) :
    lookup (frame :: frames) id = (Dict.get? frame id).or (lookup frames id) := by
  rw [lookup, List.findSome?_cons]
  cases Dict.get? frame id <;> rfl

theorem lookup_singleton (frame : Frame) (id : String) : lookup [frame] id = Dict.get? frame id := by
  rw [lookup_cons]
  exact Option.or_none

theorem lookup_of_get?_eq_none {frame : Frame} {id : String} (h : Dict.get? frame id = none)
    (frames : List Frame) : lookup (frame :: frames) id = lookup frames id := by
  rw [lookup_cons, h, Option.none_or]

theorem isLive_iff {frames : List Frame} {b : Binding} :
    isLive frames b = true ↔ ∃ c, lookup frames b.source = some c ∧
      ∀ handle, c.branch = some handle → handle = b.sourceHandle := by
  rw [isLive]
  cases lookup frames b.source with
  | none => simp
  | some c =>
      obtain ⟨outputs, branch⟩ := c
      cases branch <;> simp

theorem liveValue_iff {frames : List Frame} {b : Binding} {value : Value} :
    liveValue frames b = some value ↔ ∃ c, lookup frames b.source = some c ∧
      (∀ handle, c.branch = some handle → handle = b.sourceHandle) ∧
      Dict.get? c.outputs b.sourceHandle = some value := by
  rw [liveValue]
  constructor
  · intro h
    split at h
    next hlive =>
      obtain ⟨c, hlookup, hbranch⟩ := isLive_iff.mp hlive
      rw [hlookup] at h
      exact ⟨c, hlookup, hbranch, h⟩
    · exact absurd h (by simp)
  · rintro ⟨c, hlookup, hbranch, hvalue⟩
    rw [if_pos (isLive_iff.mpr ⟨c, hlookup, hbranch⟩), hlookup]
    exact hvalue

theorem Signal.bind_branch?_eq_some {signal : Option Signal} {handle : String} :
    signal.bind Signal.branch? = some handle ↔ signal = some (.branch handle) := by
  cases signal with
  | none => simp
  | some signal => cases signal <;> simp [Signal.branch?]

namespace Plan

variable {p : Plan} {journal : List Entry} {loops : List OpenLoop} {frame : Frame}
  {due : List PlannedNode}

/-- The frame of a pass holds nothing that lies deeper in loops than the pass. -/
theorem Level.exists_of_get?_eq_some (hlevel : p.Level journal loops frame due) (hp : p.Lawful)
    (hstacked : p.Stacked journal loops) {id : String} {c : Completed}
    (h : Dict.get? frame id = some c) : ∃ m ∈ p.nodes, m.id = id ∧ m.scope.length ≤ loops.length := by
  rcases (hlevel.found_iff id c).mp h with ⟨hmem, -⟩ | ⟨o, ho, rfl, -⟩
  · obtain ⟨m, hm, rfl, hlast⟩ := (hp.mem_region _ _).mp hmem
    refine ⟨m, hm, rfl, ?_⟩
    rw [hstacked.scope_eq hp hm hlast, length_idsOf]
  · cases loops with
    | nil => exact absurd ho (by simp)
    | cons o' loops =>
        obtain rfl := Option.some.inj ho
        obtain ⟨hopened, -, -, hrest⟩ := hstacked
        have houter := hopened.visiting.level
        have hnode := houter.node_mem
        refine ⟨o'.node, hnode, rfl, ?_⟩
        rw [hrest.scope_eq hp hnode (houter.getLast?_scope hp List.mem_cons_self), length_idsOf]
        exact Nat.le_succ _

theorem exists_of_lookup_eq_some (hlevel : p.Level journal loops frame due) (hp : p.Lawful)
    (hstacked : p.Stacked journal loops) {id : String} {c : Completed}
    (h : lookup (frame :: (placeOf loops).enclosing) id = some c) :
    ∃ m ∈ p.nodes, m.id = id ∧ m.scope.length ≤ loops.length := by
  induction loops generalizing frame due with
  | nil =>
      exact hlevel.exists_of_get?_eq_some hp hstacked (lookup_singleton frame id ▸ h)
  | cons o loops ih =>
      cases hget : Dict.get? frame id with
      | some c' => exact hlevel.exists_of_get?_eq_some hp hstacked hget
      | none =>
          rw [lookup_of_get?_eq_none hget, placeOf_cons] at h
          obtain ⟨hopened, -, -, hrest⟩ := hstacked
          obtain ⟨m, hm, hid, hlength⟩ := ih hopened.visiting.level hrest h
          exact ⟨m, hm, hid, Nat.le_succ_of_le hlength⟩

/-- What the frame of an iteration holds besides the loop lies inside of the loop. -/
theorem Level.get?_eq_none {o : OpenLoop} (hlevel : p.Level journal (o :: loops) frame due)
    (hp : p.Lawful) {m : PlannedNode} (hm : m ∈ p.nodes) (hne : m.id ≠ o.node.id)
    (hnot : o.node.id ∉ m.scope) : Dict.get? frame m.id = none := by
  cases hfound : Dict.get? frame m.id with
  | none => rfl
  | some c =>
      rcases (hlevel.found_iff _ _).mp hfound with ⟨hmem, -⟩ | ⟨o', ho', heq, -⟩
      · have hinside := hp.mem_scope_of_mem_region hmem
        rw [hp.scope_id hm] at hinside
        exact absurd hinside hnot
      · obtain rfl := Option.some.inj ho'
        exact absurd heq hne

/-- What lies deeper in loops than a pass is not found in it. -/
theorem lookup_eq_none (hlevel : p.Level journal loops frame due) (hp : p.Lawful)
    (hstacked : p.Stacked journal loops) {m : PlannedNode} (hm : m ∈ p.nodes)
    (hdeep : loops.length < m.scope.length) :
    lookup (frame :: (placeOf loops).enclosing) m.id = none := by
  cases hfound : lookup (frame :: (placeOf loops).enclosing) m.id with
  | none => rfl
  | some c =>
      obtain ⟨m', hm', hid, hlength⟩ := exists_of_lookup_eq_some hlevel hp hstacked hfound
      obtain rfl := hp.eq_of_id_eq hm' hm hid
      exact absurd hdeep (Nat.not_lt.mpr hlength)

/-- What is found of a node around the pass is its completion in the iteration that is under way
there, or the element that its own iteration is about. -/
theorem lookup_iff (hlevel : p.Level journal loops frame due) (hp : p.Lawful)
    (hstacked : p.Stacked journal loops) {m : PlannedNode} (hm : m ∈ p.nodes)
    (hscope : m.scope <+: idsOf loops) (c : Completed) :
    lookup (frame :: (placeOf loops).enclosing) m.id = some c ↔
      (m.id ∉ idsOf loops ∧
        CompletedIn journal m.id ((placeOf loops).iteration.take m.scope.length) c) ∨
      ∃ o ∈ loops, o.node.id = m.id ∧ ∃ element, o.elements[o.index]? = some element ∧
        c = o.entry element := by
  induction loops generalizing frame due with
  | nil =>
      have hnil : m.scope = [] := List.prefix_nil.mp hscope
      have hmem : m.id ∈ p.region none := (hp.mem_region _ _).mpr ⟨m, hm, rfl, by simp [hnil]⟩
      have hlookup := lookup_singleton frame m.id
      rw [show (placeOf []).enclosing = [] from rfl, hlookup, hlevel.found_iff m.id c]
      simp [placeOf, idsOf, hmem]
  | cons o loops ih =>
      obtain ⟨hopened, hmore, -, hrest⟩ := hstacked
      have houter := hopened.visiting.level
      have hnode := houter.node_mem
      have hloops : o.node.scope = idsOf loops :=
        hrest.scope_eq hp hnode (houter.getLast?_scope hp List.mem_cons_self)
      have helement : o.elements[o.index]? = some o.elements[o.index] := List.getElem?_eq_getElem hmore
      -- The node is the innermost loop, or a member of its pass, or it is found further out.
      by_cases hid : m.id = o.node.id
      · obtain rfl := hp.eq_of_id_eq hm hnode hid
        have hget : Dict.get? frame o.node.id = some (o.entry o.elements[o.index]) :=
          (hlevel.found_iff _ _).mpr (Or.inr ⟨o, rfl, rfl, _, helement, rfl⟩)
        rw [lookup_cons, hget, Option.some_or, Option.some_inj]
        constructor
        · rintro rfl
          exact Or.inr ⟨o, List.mem_cons_self, rfl, _, helement, rfl⟩
        · rintro (⟨hnot, -⟩ | ⟨o', ho', hid', element, helement', rfl⟩)
          · exact absurd (mem_idsOf.mpr ⟨o, List.mem_cons_self, rfl⟩) hnot
          · rcases List.mem_cons.mp ho' with rfl | ho'
            · rw [Option.some.inj (helement.symm.trans helement')]
            · have hself : o.node.id ∈ o.node.scope := hloops ▸ mem_idsOf.mpr ⟨o', ho', hid'⟩
              exact absurd hself (hp.not_mem_scope_self o.node hnode)
      rcases Nat.lt_or_ge loops.length m.scope.length with hdeep | hshallow
      · have hfull : m.scope = idsOf (o :: loops) :=
          hscope.eq_of_length_le (by rw [length_idsOf, List.length_cons]; omega)
        have hmem : m.id ∈ p.region (placeOf (o :: loops)).region :=
          (hp.mem_region _ _).mpr ⟨m, hm, rfl, by rw [hfull, idsOf_cons]; simp [placeOf]⟩
        have hnot : m.id ∉ idsOf (o :: loops) := hfull ▸ hp.not_mem_scope_self m hm
        have hnone : lookup (placeOf (o :: loops)).enclosing m.id = none := by
          rw [placeOf_cons]
          exact lookup_eq_none houter hp hrest hm hdeep
        have htake : (placeOf (o :: loops)).iteration.take m.scope.length =
            (placeOf (o :: loops)).iteration :=
          List.take_of_length_le (by rw [hfull, length_idsOf, length_iteration_placeOf])
        rw [lookup_cons, hnone, Option.or_none, hlevel.found_iff, htake]
        constructor
        · rintro (⟨-, hc⟩ | ⟨o', ho', heq, -⟩)
          · exact Or.inl ⟨hnot, hc⟩
          · obtain rfl := Option.some.inj ho'
            exact absurd heq hid
        · rintro (⟨-, hc⟩ | ⟨o', ho', heq, -⟩)
          · exact Or.inl ⟨hmem, hc⟩
          · exact absurd (mem_idsOf.mpr ⟨o', ho', heq⟩) hnot
      · have hprefix : m.scope <+: idsOf loops := by
          rw [idsOf_cons] at hscope
          exact List.prefix_of_prefix_length_le hscope (List.prefix_append _ _)
            (by rw [length_idsOf]; exact hshallow)
        have hget : Dict.get? frame m.id = none := by
          refine hlevel.get?_eq_none hp hm hid fun hinside => ?_
          have hself := hprefix.subset hinside
          rw [← hloops] at hself
          exact hp.not_mem_scope_self o.node hnode hself
        have htake : (placeOf (o :: loops)).iteration.take m.scope.length =
            (placeOf loops).iteration.take m.scope.length := by
          rw [placeOf_cons]
          exact List.take_append_of_le_length (by rw [length_iteration_placeOf]; exact hshallow)
        have hlookup := ih houter hrest hprefix
        rw [lookup_of_get?_eq_none hget, htake, placeOf_cons, RunSettings.inside, hlookup]
        simp [idsOf_cons, hid, Ne.symm hid]

end Plan

end FlowGraph
