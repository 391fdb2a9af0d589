import FlowGraph.Proofs.Run.Activation
import FlowGraph.Proofs.Run.DataFlow
import FlowGraph.Proofs.Run.Supply

/-!
What arrives at the inputs of a node, read off the record of the run. The engine looks the inputs up in its
frames, one after the other; here it is said what each of them holds and for what it is refused, from what
the record says of the bindings, and that the engine finds the same.
-/

namespace FlowGraph

open Plan

namespace Handle

def Takes (input : Handle) (v : Value) : Prop :=
  v = .null ∨ v.category = input.category ∨ input.category = .any

/-- The values that arrive with what an input holds: the ones in the array, if the input takes any number
of edges. -/
def arriving (input : Handle) (found : Value) : List Value :=
  if input.cardinality = .many then found.items?.getD [] else [found]

end Handle

namespace Plan

variable (p : Plan)

/-- What an input of a node holds in an iteration, by the record of a run: all that its bindings carry, in
their order; or, if it takes one edge at most, what its binding carries, and its default otherwise. -/
inductive Holds (journal : List Entry) (n : PlannedNode) (iteration : List Nat) (input : Handle) :
    Option Value → Prop
  | many {carried : List (Option Value)} (hmany : input.cardinality = .many)
      (hcarried : List.Forall₂
        (fun b found => ∀ value, found = some value ↔ p.Carries journal n iteration b value)
        (n.bindingsOf input) carried) :
      Holds journal n iteration input (some (.array carried.reduceOption))
  | carried {b value} (hone : input.cardinality ≠ .many) (hbinding : n.bindingsOf input = [b])
      (hcarried : p.Carries journal n iteration b value) : Holds journal n iteration input (some value)
  | default (hone : input.cardinality ≠ .many)
      (hnone : ∀ b ∈ n.bindingsOf input, ∀ value, ¬ p.Carries journal n iteration b value) :
      Holds journal n iteration input input.default

/-- For what an input is refused: for the first value that it does not take; or for having none, though it
is required and its binding is live. -/
inductive Refuses (journal : List Entry) (n : PlannedNode) (iteration : List Nat) (input : Handle) :
    NodeError → Prop
  | category {found before v after} (hholds : p.Holds journal n iteration input (some found))
      (harriving : input.arriving found = before ++ v :: after) (hbefore : ∀ u ∈ before, input.Takes u)
      (hv : ¬ input.Takes v) :
      Refuses journal n iteration input
        (.invalidInputType input.key input.category.name v.typeName)
  | missing (hrequired : input.cardinality = .required) (hholds : p.Holds journal n iteration input none)
      (hlive : ∃ b ∈ n.bindingsOf input, p.LiveIn (visitsIn journal) n iteration b) :
      Refuses journal n iteration input (.missingInput input.key)

/-- Whether frames tell of the bindings of a node what the record tells. -/
structure Tells (journal : List Entry) (n : PlannedNode) (iteration : List Nat) (frames : List Frame) :
    Prop where
  carries_iff : ∀ b ∈ n.forwardBindings, ∀ value,
    liveValue frames b = some value ↔ p.Carries journal n iteration b value
  live_iff : ∀ b ∈ n.forwardBindings,
    isLive frames b = true ↔ p.LiveIn (visitsIn journal) n iteration b

end Plan

namespace PlannedNode

variable {n : PlannedNode} {frames : List Frame} {input : Handle}

theorem checkValue_eq_ok_iff {v : Value} : checkValue input v = .ok () ↔ input.Takes v := by
  have haccepts : input.category.accepts v = true ↔ input.Takes v := by
    rw [Category.accepts, Handle.Takes, Bool.or_eq_true, Category.isCompatible]
    cases v <;> cases input.category <;> simp [Value.isNull, Value.category]
  rw [checkValue, ← haccepts]
  split_ifs with h <;> simp [h]

theorem checkValue_of_not_takes {v : Value} (h : ¬ input.Takes v) :
    checkValue input v = .error (.invalidInputType input.key input.category.name v.typeName) := by
  rw [checkValue, if_neg]
  intro haccepts
  exact h (checkValue_eq_ok_iff.mp (by rw [checkValue, if_pos haccepts]))

theorem forM_checkValue_eq_ok_iff {values : List Value} :
    values.forM (checkValue input) = .ok () ↔ ∀ v ∈ values, input.Takes v := by
  induction values with
  | nil => simp [pure, Except.pure]
  | cons v values ih =>
      rw [List.forall_mem_cons, ← ih, ← checkValue_eq_ok_iff]
      constructor
      · intro h
        obtain ⟨_, hv, hrest⟩ := bind_eq_ok (x := checkValue input v) h
        exact ⟨hv, hrest⟩
      · rintro ⟨hv, hrest⟩
        show (checkValue input v >>= fun _ => values.forM (checkValue input)) = _
        rw [hv, ok_bind, hrest]

theorem forM_checkValue_append {before after : List Value} {v : Value}
    (hbefore : ∀ u ∈ before, input.Takes u) (hv : ¬ input.Takes v) :
    (before ++ v :: after).forM (checkValue input) =
      .error (.invalidInputType input.key input.category.name v.typeName) := by
  induction before with
  | nil =>
      show (checkValue input v >>= fun _ => after.forM (checkValue input)) = _
      rw [checkValue_of_not_takes hv]
      rfl
  | cons u before ih =>
      obtain ⟨hu, hbefore⟩ := List.forall_mem_cons.mp hbefore
      show (checkValue input u >>= fun _ => (before ++ v :: after).forM (checkValue input)) = _
      rw [checkValue_eq_ok_iff.mpr hu, ok_bind, ih hbefore]

/-- What the engine finds for an input, before it looks at categories. -/
def foundAt (n : PlannedNode) (frames : List Frame) (input : Handle) : Option Value :=
  if input.cardinality = .many then some (.array ((n.bindingsOf input).filterMap (liveValue frames)))
  else ((n.bindingsOf input).filterMap (liveValue frames)).head? <|> input.default

theorem inputValue_of_foundAt_eq_some {found : Value} (h : n.foundAt frames input = some found) :
    n.inputValue frames input =
      ((input.arriving found).forM (checkValue input) >>= fun _ => .ok (some found)) := by
  unfold foundAt at h
  unfold inputValue Handle.arriving
  split_ifs at h ⊢ with hmany
  · obtain rfl := Option.some.inj h
    rfl
  · dsimp only
    rw [h]
    show _ = ((checkValue input found >>= fun _ => .ok ()) >>= fun _ => Except.ok (some found))
    rw [bind_assoc]
    rfl

theorem inputValue_of_foundAt_eq_none (h : n.foundAt frames input = none) :
    n.inputValue frames input =
      if input.cardinality = .required ∧ (n.bindingsOf input).any (isLive frames) = true then
        .error (.missingInput input.key)
      else .ok none := by
  unfold foundAt at h
  unfold inputValue
  split_ifs at h with hmany
  dsimp only
  rw [if_neg hmany, h]
  rfl

end PlannedNode

namespace Plan

variable {p : Plan} {journal : List Entry} {n : PlannedNode} {it : List Nat} {frames : List Frame}
  {input : Handle}

theorem Tells.cons_sent (h : p.Tells journal n it frames) (event : Event) :
    p.Tells (.sent event :: journal) n it frames where
  carries_iff b hb value :=
    ⟨fun hvalue => ((h.carries_iff b hb value).mp hvalue).cons_sent event,
      fun hcarries => (h.carries_iff b hb value).mpr hcarries.of_cons_sent⟩
  live_iff := h.live_iff

theorem Tells.carries_iff_of_mem (h : p.Tells journal n it frames) {b : Binding}
    (hb : b ∈ n.bindingsOf input) (value : Value) :
    liveValue frames b = some value ↔ p.Carries journal n it b value :=
  h.carries_iff b (PlannedNode.mem_bindingsOf.mp hb).1 value

/-- What an input that takes any number of edges holds. -/
theorem Tells.forall₂_iff (h : p.Tells journal n it frames) {carried : List (Option Value)} :
    List.Forall₂ (fun b found => ∀ value, found = some value ↔ p.Carries journal n it b value)
      (n.bindingsOf input) carried ↔ carried = (n.bindingsOf input).map (liveValue frames) := by
  have htold : ∀ b ∈ n.bindingsOf input, ∀ found : Option Value,
      (∀ value, found = some value ↔ p.Carries journal n it b value) ↔ found = liveValue frames b := by
    intro b hb found
    simp only [← h.carries_iff_of_mem hb]
    exact ⟨fun hsame => Option.ext hsame, fun heq value => by rw [heq]⟩
  generalize n.bindingsOf input = bindings at htold
  induction bindings generalizing carried with
  | nil => simp
  | cons b bindings ih =>
      cases carried with
      | nil => simp
      | cons found carried =>
          rw [List.forall₂_cons, htold b List.mem_cons_self, List.map_cons, List.cons.injEq]
          exact and_congr_right fun _ => ih fun b' hb' => htold b' (List.mem_cons_of_mem _ hb')

/-- The record says that an input holds what the engine finds for it. -/
theorem Tells.holds_iff (h : p.Tells journal n it frames)
    (hone : input.cardinality ≠ .many → (n.bindingsOf input).length ≤ 1) {found : Option Value} :
    p.Holds journal n it input found ↔ found = n.foundAt frames input := by
  unfold PlannedNode.foundAt
  have hmap : (n.bindingsOf input).filterMap (liveValue frames) =
      ((n.bindingsOf input).map (liveValue frames)).reduceOption := by
    show _ = ((n.bindingsOf input).map (liveValue frames)).filterMap id
    rw [List.filterMap_map, Function.id_comp]
  constructor
  · intro hholds
    cases hholds with
    | many hmany hcarried => rw [if_pos hmany, hmap, h.forall₂_iff.mp hcarried]
    | @carried b value hmany hbinding hcarried =>
        have hvalue := (h.carries_iff_of_mem (hbinding ▸ List.mem_singleton_self b) value).mpr hcarried
        rw [if_neg hmany, hbinding, List.filterMap_cons, hvalue]
        rfl
    | default hmany hnone =>
        have hempty : (n.bindingsOf input).filterMap (liveValue frames) = [] := by
          refine List.filterMap_eq_nil_iff.mpr fun b hb => Option.eq_none_iff_forall_ne_some.mpr ?_
          exact fun value hvalue => hnone b hb value ((h.carries_iff_of_mem hb value).mp hvalue)
        rw [if_neg hmany, hempty]
        rfl
  · rintro rfl
    split_ifs with hmany
    · rw [hmap]
      exact .many hmany (h.forall₂_iff.mpr rfl)
    · cases hvalues : (n.bindingsOf input).filterMap (liveValue frames) with
      | nil =>
          refine .default hmany fun b hb value hcarries => ?_
          have hvalue := (h.carries_iff_of_mem hb value).mpr hcarries
          exact absurd (List.filterMap_eq_nil_iff.mp hvalues b hb) (by simp [hvalue])
      | cons value values =>
          obtain ⟨b, hb, hvalue⟩ := List.mem_filterMap.mp (hvalues ▸ List.mem_cons_self)
          have hbinding : n.bindingsOf input = [b] := by
            obtain ⟨b', hb'⟩ := List.length_eq_one_iff.mp
              (le_antisymm (hone hmany) (List.length_pos_of_mem hb))
            rw [hb'] at hb ⊢
            rw [List.mem_singleton.mp hb]
          exact .carried hmany hbinding ((h.carries_iff_of_mem hb value).mp hvalue)

/-- The record says that an input is refused for what the engine refuses it. -/
theorem Tells.refuses_iff (h : p.Tells journal n it frames)
    (hone : input.cardinality ≠ .many → (n.bindingsOf input).length ≤ 1) {cause : NodeError} :
    p.Refuses journal n it input cause ↔ n.inputValue frames input = .error cause := by
  have hlive : (n.bindingsOf input).any (isLive frames) = true ↔
      ∃ b ∈ n.bindingsOf input, p.LiveIn (visitsIn journal) n it b := by
    rw [List.any_eq_true]
    exact exists_congr fun b => and_congr_right fun hb =>
      h.live_iff b (PlannedNode.mem_bindingsOf.mp hb).1
  constructor
  · intro hrefuses
    cases hrefuses with
    | category hholds harriving hbefore hv =>
        rw [PlannedNode.inputValue_of_foundAt_eq_some ((h.holds_iff hone).mp hholds).symm, harriving,
          PlannedNode.forM_checkValue_append hbefore hv]
        rfl
    | missing hrequired hholds hbound =>
        rw [PlannedNode.inputValue_of_foundAt_eq_none ((h.holds_iff hone).mp hholds).symm,
          if_pos ⟨hrequired, hlive.mpr hbound⟩]
  · intro herror
    cases hfound : n.foundAt frames input with
    | none =>
        rw [PlannedNode.inputValue_of_foundAt_eq_none hfound] at herror
        split_ifs at herror with hmissing
        obtain rfl := Except.error.inj herror
        exact .missing hmissing.1 ((h.holds_iff hone).mpr hfound.symm) (hlive.mp hmissing.2)
    | some found =>
        rw [PlannedNode.inputValue_of_foundAt_eq_some hfound] at herror
        rcases bind_eq_error herror with hforM | ⟨_, -, herror⟩
        · obtain ⟨before, v, after, harriving, hbefore, hv⟩ := PlannedNode.exists_of_forM_eq_error hforM
          have hnot : ¬ input.Takes v := by
            intro htakes
            exact absurd ((PlannedNode.checkValue_eq_ok_iff.mpr htakes).symm.trans hv) (by simp)
          obtain rfl : _ = cause :=
            Except.error.inj ((PlannedNode.checkValue_of_not_takes hnot).symm.trans hv)
          exact .category ((h.holds_iff hone).mpr hfound.symm) harriving
            (fun u hu => PlannedNode.checkValue_eq_ok_iff.mp (hbefore u hu)) hnot
        · exact absurd herror (by simp)

/-- What an input holds that is not refused: what it is given, and it takes all of that. -/
theorem Tells.holds_of_inputValue_eq_ok (h : p.Tells journal n it frames)
    (hone : input.cardinality ≠ .many → (n.bindingsOf input).length ≤ 1) {found : Option Value}
    (hok : n.inputValue frames input = .ok found) :
    p.Holds journal n it input found ∧
      ∀ value, found = some value → ∀ v ∈ input.arriving value, input.Takes v := by
  cases hfound : n.foundAt frames input with
  | none =>
      rw [PlannedNode.inputValue_of_foundAt_eq_none hfound] at hok
      split_ifs at hok
      obtain rfl := Except.ok.inj hok
      exact ⟨(h.holds_iff hone).mpr hfound.symm, fun value hvalue => absurd hvalue (by simp)⟩
  | some value =>
      rw [PlannedNode.inputValue_of_foundAt_eq_some hfound] at hok
      obtain ⟨_, hforM, hok⟩ := bind_eq_ok hok
      obtain rfl := Except.ok.inj hok
      refine ⟨(h.holds_iff hone).mpr hfound.symm, fun value' hvalue => ?_⟩
      obtain rfl := Option.some.inj hvalue
      exact PlannedNode.forM_checkValue_eq_ok_iff.mp hforM

end Plan

/-- The frames of a pass tell of the bindings of what is due what the record tells. -/
theorem RunSettings.Reachable.tells {s : RunSettings} {c : Snapshot} {loops : List OpenLoop} {frame : Frame}
    {due : List PlannedNode} {n : PlannedNode} (hp : s.plan.Lawful) (hc : s.Reachable c)
    (hlevel : s.plan.Level c.run.journal loops frame due)
    (hstacked : s.plan.Stacked c.run.journal loops) (hn : n ∈ due) :
    s.plan.Tells c.run.journal n (placeOf loops).iteration (frame :: (placeOf loops).enclosing) where
  carries_iff _ hb _ :=
    ⟨hc.carries_of_liveValue hp hlevel hstacked hn hb, liveValue_of_carries hp hlevel hstacked hn hb⟩
  live_iff _ hb := hc.isLive_iff_liveIn hp hlevel hstacked hn hb

end FlowGraph
