import FlowGraph.Proofs.Plan.Acyclic
import FlowGraph.Proofs.Run.Twins

/-!
Runs of the same nodes in different orders. Members of a region that read nothing of each other may be
visited in either order, and two orders of a region that both put sources first are connected by such
exchanges. So a pass of one run that finishes is followed by that of the other run: first the members
are brought into the other order, and then they are visited in the other run. This goes by induction on
the depth of the loops, as the visit of a loop consists of passes.
-/

namespace FlowGraph

open Plan

/-- Whether a list is turned into another one by exchanges of neighbours that are apart. -/
inductive Shuffle {α : Type} (apart : α → α → Prop) : List α → List α → Prop
  | nil : Shuffle apart [] []
  | cons (x : α) {xs ys : List α} (h : Shuffle apart xs ys) : Shuffle apart (x :: xs) (x :: ys)
  | swap {x y : α} (xs : List α) (h : apart x y) : Shuffle apart (x :: y :: xs) (y :: x :: xs)
  | trans {xs ys zs : List α} (h : Shuffle apart xs ys) (h' : Shuffle apart ys zs) :
    Shuffle apart xs zs

namespace Shuffle

variable {α : Type} {apart : α → α → Prop}

theorem refl (xs : List α) : Shuffle apart xs xs := by
  induction xs with
  | nil => exact nil
  | cons x xs ih => exact ih.cons x

theorem perm {xs ys : List α} (h : Shuffle apart xs ys) : xs.Perm ys := by
  induction h with
  | nil => exact List.Perm.nil
  | cons x _ ih => exact ih.cons x
  | swap => exact List.Perm.swap _ _ _
  | trans _ _ ih ih' => exact ih.trans ih'

/-- What is apart from all that comes before it can be brought to the front. -/
theorem to_front {xs : List α} {y : α} (h : ∀ x ∈ xs, apart x y) (rest : List α) :
    Shuffle apart (xs ++ y :: rest) (y :: (xs ++ rest)) := by
  induction xs with
  | nil => exact refl _
  | cons x xs ih =>
      obtain ⟨hx, hxs⟩ := List.forall_mem_cons.mp h
      exact ((ih hxs).cons x).trans (.swap _ hx)

/-- Two orders of the same elements in which nothing comes after what it has to precede are connected
by exchanges of elements neither of which has to precede the other one. -/
theorem of_perm {before : α → α → Prop} {xs ys : List α} (hperm : xs.Perm ys)
    (hxs : xs.Pairwise fun x y => ¬ before y x) (hys : ys.Pairwise fun x y => ¬ before y x) :
    Shuffle (fun x y => ¬ before y x ∧ ¬ before x y) xs ys := by
  induction ys generalizing xs with
  | nil =>
      obtain rfl := hperm.eq_nil
      exact nil
  | cons y ys ih =>
      obtain ⟨hy, hys⟩ := List.pairwise_cons.mp hys
      obtain ⟨front, rest, rfl, hnot⟩ := List.eq_append_cons_of_mem (hperm.mem_iff.mpr List.mem_cons_self)
      have hperm' : (front ++ rest).Perm ys := (List.perm_middle.symm.trans hperm).cons_inv
      obtain ⟨hfront, -, hcross⟩ := List.pairwise_append.mp hxs
      have hkept : (front ++ rest).Pairwise fun x y => ¬ before y x :=
        hxs.sublist ((List.sublist_cons_self y rest).append_left front)
      refine (to_front (fun x hx => ⟨hcross x hx y List.mem_cons_self, hy x ?_⟩) rest).trans
        ((ih hperm' hkept hys).cons y)
      exact hperm'.mem_iff.mp (List.mem_append_left rest hx)

end Shuffle

/-! ### Members of a region that are apart -/

namespace Plan

/-- Whether two direct members of a region read nothing of each other. -/
structure Apart (p : Plan) (a b : PlannedNode) : Prop where
  left_mem : a ∈ p.nodes
  right_mem : b ∈ p.nodes
  scope_eq : a.scope = b.scope
  ne : a ≠ b
  not_reads : ¬ p.Reads a b.id
  not_read : ¬ p.Reads b a.id

namespace Lawful

variable {p : Plan} (h : p.Lawful)

include h

/-- What lies inside of a direct member of a region is stood for by this member. -/
theorem getD_scope_of_within {n m : PlannedNode} (hn : n ∈ p.nodes) (hm : m ∈ p.nodes)
    (hwithin : p.Within n.id m.id) : m.scope[n.scope.length]?.getD m.id = n.id := by
  rcases hwithin with hid | hinside
  · obtain rfl := h.eq_of_id_eq hm hn hid
    rw [List.getElem?_eq_none (Nat.le_refl _), Option.getD_none]
  · rw [h.scope_id hm] at hinside
    obtain ⟨k, hk, hid⟩ := List.mem_iff_getElem.mp hinside
    obtain ⟨n', hn', hid', hscope⟩ := h.scope_getElem m hm k hk
    obtain rfl := h.eq_of_id_eq hn hn' (hid.symm.trans hid'.symm)
    have hlength : n.scope.length = k := by
      rw [hscope, List.length_take]
      omega
    rw [hlength, List.getElem?_eq_getElem hk, Option.getD_some, hid]

theorem liesAround_of_within {n : PlannedNode} (hn : n ∈ p.nodes) {region : Option String}
    (hregion : n.scope.getLast? = region) {id : String} (hid : p.Within n.id id) :
    LiesAround region (p.scope id) := by
  rintro loopId rfl
  have hmem : loopId ∈ p.scope n.id := h.scope_id hn ▸ List.mem_of_getLast? hregion
  rcases hid with rfl | hid
  · exact hmem
  · exact h.mem_scope_of_mem_scope hmem hid

/-- What a direct member reads is read in its region. -/
theorem regionReads_of_reads {n : PlannedNode} (hn : n ∈ p.nodes) {region : Option String}
    (hregion : n.scope.getLast? = region) {id : String} (hid : p.Reads n id) :
    p.RegionReads region id := by
  obtain ⟨m, hm, hwithin, hbinding⟩ := hid
  exact ⟨m, hm, h.scope_id hm ▸ h.liesAround_of_within hn hregion hwithin, hbinding⟩

end Lawful

end Plan

namespace RunSettings

/-- In a region what is read comes before what reads it. -/
theorem Orderly.pairwise_regionNodes {s : RunSettings} (h : s.Orderly) (region : Option String) :
    (s.plan.regionNodes region).Pairwise fun a b => ¬ s.plan.Reads a b.id := by
  rw [List.pairwise_iff_forall_sublist]
  intro a b hab
  have hp := h.lawful
  obtain ⟨ha, hregion⟩ := hp.mem_regionNodes.mp (hab.subset List.mem_cons_self)
  obtain ⟨hb, hregion'⟩ := hp.mem_regionNodes.mp (hab.subset (List.mem_cons_of_mem a List.mem_cons_self))
  have hscope := hp.scope_eq_of_getLast?_eq ha hb (hregion.trans hregion'.symm)
  have hids : [a.id, b.id].Sublist (s.plan.region region) :=
    hp.map_id_regionNodes region ▸ hab.map PlannedNode.id
  have hne : b.id ≠ a.id := by
    have hnodup := (hp.region_nodup region).sublist hids
    simpa [eq_comm] using hnodup
  rintro ⟨m, hm, hwithin, binding, hbinding, hsource⟩
  by_cases hback : binding.backEdge = true
  · -- The loop that the edge closes would have to lie inside of a member next to its source.
    have hlast := h.closing m hm binding hbinding hback b hb hsource.symm
    have hloop : m.id ∈ a.scope := hscope ▸ List.mem_of_getLast? hlast
    rcases hwithin with hid | hinside
    · exact hp.not_mem_scope_self a ha (hid ▸ hloop)
    · have hself := hp.mem_scope_of_mem_scope (hp.scope_id ha ▸ hloop) hinside
      exact hp.not_mem_scope m.id hself
  · have hforward : binding ∈ m.forwardBindings := List.mem_filter.mpr ⟨hbinding, by simpa using hback⟩
    have horder := hp.order_of_binding m hm binding hforward b hb hsource.symm
    rw [← hscope, hp.getD_scope_of_within ha hm hwithin, hregion] at horder
    have hlt := idxOf_lt_idxOf_of_sublist (hp.region_nodup region) hids
    have hgt := idxOf_lt_idxOf_of_sublist (hp.region_nodup region) (horder hne)
    omega

end RunSettings

/-! ### What follows what -/

theorem Frame.lookup_leave_of_ne {frame : Frame} {outer : List Frame} {id other : String}
    (hne : other ≠ id) (found : Option Completed) :
    lookup (frame.leave id found :: outer) other = lookup (frame :: outer) other := by
  cases found with
  | none => rfl
  | some c => rw [Frame.leave, lookup_cons, lookup_cons, Dict.get?_insert_of_ne _ _ hne]

/-- What a visit leaves makes no difference to those that do not read it. -/
theorem Frame.sameIn_leave {ids : String → Prop} {id : String} (hnot : ¬ ids id) (frame : Frame)
    (outer : List Frame) (found : Option Completed) :
    SameIn ids (frame.leave id found :: outer) (frame :: outer) := by
  intro other hother
  refine lookup_leave_of_ne ?_ found
  rintro rfl
  exact hnot hother

/-- What was found alike is found alike when the same has been left in both frames. -/
theorem Frame.lookup_leave_alike {frame frame' : Frame} {outer outer' : List Frame} {id other : String}
    (halike : lookup (frame :: outer) other = lookup (frame' :: outer') other)
    (found : Option Completed) :
    lookup (frame.leave id found :: outer) other = lookup (frame'.leave id found :: outer') other := by
  by_cases hne : other = id
  · subst hne
    cases found with
    | none => exact halike
    | some c => simp only [Frame.leave, lookup_cons, Dict.get?_insert_self, Option.some_or]
  · rw [lookup_leave_of_ne hne, lookup_leave_of_ne hne, halike]

section

variable {reads reads' ids ids' : String → Prop} {outer outer' outer'' : List Frame}

theorem SamePass.trans {frame frame' : Frame} {r r' : RunState} {passed passed' last last' : Passed}
    (h : SamePass ids outer outer' frame frame' r r' passed passed')
    (h' : SamePass ids outer outer' passed.frame passed'.frame passed.run passed'.run last last') :
    SamePass ids outer outer' frame frame' r r' last last' :=
  ⟨h'.finished, fun id halike => h'.found id (h.found id halike), h.told.trans h'.told⟩

theorem SamePass.note {frame frame' : Frame} {r r' : RunState} {passed passed' : Passed}
    (h : SamePass ids outer outer' frame frame' r r' passed passed') (place place' : Place) :
    SamePass ids outer outer' frame frame' r r' (passed.note place) (passed'.note place') := by
  have hnoted := h.told.calm_left.silent_log (e := .passed place.region place.iteration passed.exit) rfl
  have hnoted' := h.told.calm_right.silent_log (e := .passed place'.region place'.iteration passed'.exit) rfl
  exact ⟨h.finished, h.found, h.told.trans (.silent hnoted hnoted')⟩

theorem Follows.mono {go go' : Frame → RunState → Passed} (h : Follows reads ids outer outer' go go')
    (hreads : ∀ id, reads id → reads' id) (hids : ∀ id, ids id → ids' id) :
    Follows reads' ids' outer outer' go go' := by
  intro frame frame' r r' hsame hr hr' hexit
  obtain ⟨hfinished, hfound, htold⟩ := h frame frame' r r' (hsame.mono hreads) hr hr' hexit
  exact ⟨hfinished, hfound, htold.mono hids⟩

theorem Follows.trans {go go' go'' : Frame → RunState → Passed} (h : Follows reads ids outer outer go go')
    (h' : Follows reads ids outer outer' go' go'') : Follows reads ids outer outer' go go'' := by
  intro frame frame' r r' hsame hr hr' hexit
  obtain ⟨hfinished, hfound, htold⟩ := h frame frame r r (fun _ _ => rfl) hr hr hexit
  obtain ⟨hfinished', hfound', htold'⟩ := h' frame frame' r r' hsame hr hr' hfinished
  exact ⟨hfinished', fun id halike => (hfound id rfl).trans (hfound' id halike), htold.through htold'⟩

end

theorem SameVisit.samePass {p : Plan} {n : PlannedNode} {frame frame' : Frame} {r r' : RunState}
    {passed passed' : Passed} (h : SameVisit p n frame frame' r r' passed passed')
    (outer outer' : List Frame) :
    SamePass (p.Within n.id) outer outer' frame frame' r r' passed passed' := by
  obtain ⟨found, hframe, hframe'⟩ := h.exists_found
  refine ⟨h.finished, fun id halike => ?_, h.told⟩
  rw [hframe, hframe']
  exact Frame.lookup_leave_alike halike found

namespace RunSettings

section

variable (s : RunSettings) (pass : Place → Frame → RunState → Passed) (place : Place)

theorem visitAll_append (ns ms : List PlannedNode) (frame : Frame) (r : RunState) :
    s.visitAll pass place (ns ++ ms) frame r =
      match (s.visitAll pass place ns frame r).exit with
      | .finished => s.visitAll pass place ms (s.visitAll pass place ns frame r).frame
          (s.visitAll pass place ns frame r).run
      | _ => s.visitAll pass place ns frame r := by
  induction ns generalizing frame r with
  | nil => rfl
  | cons n ns ih =>
      rw [List.cons_append, visitAll, visitAll, ih]
      generalize s.visitMember pass place n frame r = passed
      obtain ⟨exit, frame, run⟩ := passed
      cases exit <;> rfl

/-- To visit a single member is what its visit is. -/
theorem visitAll_singleton (n : PlannedNode) (frame : Frame) (r : RunState) :
    s.visitAll pass place [n] frame r = s.visitMember pass place n frame r := by
  rw [visitAll]
  generalize s.visitMember pass place n frame r = passed
  obtain ⟨exit, frame, run⟩ := passed
  cases exit <;> rfl

/-- To visit two members is to visit one after the other, if the first visit finishes. -/
theorem visitAll_pair {a : PlannedNode} (b : PlannedNode) {frame : Frame} {r : RunState}
    (hexit : (s.visitMember pass place a frame r).exit = .finished) :
    s.visitAll pass place [a, b] frame r =
      s.visitMember pass place b (s.visitMember pass place a frame r).frame
        (s.visitMember pass place a frame r).run := by
  rw [← List.singleton_append, visitAll_append, visitAll_singleton, hexit]
  exact s.visitAll_singleton pass place b _ _

theorem finished_of_visitAll_cons {n : PlannedNode} {ns : List PlannedNode} {frame : Frame} {r : RunState}
    (hexit : (s.visitAll pass place (n :: ns) frame r).exit = .finished) :
    (s.visitMember pass place n frame r).exit = .finished := by
  rw [visitAll] at hexit
  generalize s.visitMember pass place n frame r = passed at hexit ⊢
  obtain ⟨exit, frame, run⟩ := passed
  cases exit with
  | finished => rfl
  | _ => exact hexit

end

section

variable {s s' : RunSettings} {pass pass' : Place → Frame → RunState → Passed} {place place' : Place}
  {reads ids : String → Prop} {ns ns' ms ms' : List PlannedNode}

theorem visitAll_follows_append
    (h : Follows reads ids place.enclosing place'.enclosing (s.visitAll pass place ns)
      (s'.visitAll pass' place' ns'))
    (h' : Follows reads ids place.enclosing place'.enclosing (s.visitAll pass place ms)
      (s'.visitAll pass' place' ms')) :
    Follows reads ids place.enclosing place'.enclosing (s.visitAll pass place (ns ++ ms))
      (s'.visitAll pass' place' (ns' ++ ms')) := by
  intro frame frame' r r' hsame hr hr' hexit
  have hfirst := h frame frame' r r' hsame hr hr'
  rw [visitAll_append] at hexit ⊢
  rw [visitAll_append]
  generalize s.visitAll pass place ns frame r = passed at hexit hfirst ⊢
  generalize s'.visitAll pass' place' ns' frame' r' = passed' at hfirst ⊢
  obtain ⟨exit, inner, run⟩ := passed
  obtain ⟨exit', inner', run'⟩ := passed'
  cases exit with
  | finished =>
      have hpass := hfirst rfl
      obtain rfl := hpass.finished
      exact hpass.trans (h' inner inner' run run' (fun id hid => hpass.found id (hsame id hid))
        hpass.told.calm_left hpass.told.calm_right hexit)
  | _ => exact absurd hexit (by simp)

end

section

variable {s s' : RunSettings} {place place' : Place} {depth : Nat}

/-- The same members are visited alike in two runs. -/
theorem Twin.visitAll_follows (h : s.Twin s') (hplace : place.Matches place')
    (hpass : s.PassesFollow s' depth) {ns : List PlannedNode}
    (hns : ∀ n ∈ ns, n ∈ s.plan.regionNodes place.region) :
    Follows (s.plan.RegionReads place.region) (fun id => LiesAround place.region (s.plan.scope id))
      place.enclosing place'.enclosing (s.visitAll (s.pass depth) place ns)
      (s'.visitAll (s'.pass depth) place' ns) := by
  induction ns with
  | nil => exact fun frame frame' r r' _ hr hr' _ =>
      ⟨rfl, fun _ halike => halike, .silent ⟨hr, fun _ => rfl⟩ ⟨hr', fun _ => rfl⟩⟩
  | cons n ns ih =>
      obtain ⟨hn, hns⟩ := List.forall_mem_cons.mp hns
      obtain ⟨hn, hregion⟩ := h.left.lawful.mem_regionNodes.mp hn
      rw [← List.singleton_append]
      refine visitAll_follows_append ?_ (ih hns)
      intro frame frame' r r' hsame hr hr' hexit
      rw [visitAll_singleton] at hexit ⊢
      rw [visitAll_singleton]
      obtain ⟨hfinished, hfound, htold⟩ := (h.visitMember_same hplace hn hr hr' hpass
        (hsame.mono fun id => h.left.lawful.regionReads_of_reads hn hregion) hexit).samePass
          place.enclosing place'.enclosing
      exact ⟨hfinished, hfound, htold.mono fun id => h.left.lawful.liesAround_of_within hn hregion⟩

/-- Two members that are apart may be visited in either order. -/
theorem Orderly.swap_follows (h : s.Orderly) (hpass : s.PassesFollow s depth) (place : Place)
    {a b : PlannedNode} (hab : s.plan.Apart a b) {reads : String → Prop} (ha : ∀ id, s.plan.Reads a id → reads id)
    (hb : ∀ id, s.plan.Reads b id → reads id) :
    Follows reads (fun id => s.plan.Within a.id id ∨ s.plan.Within b.id id) place.enclosing
      place.enclosing (s.visitAll (s.pass depth) place [a, b]) (s.visitAll (s.pass depth) place [b, a]) := by
  intro frame frame' r r' hsame hr hr' hexit
  have hplace : place.Matches place := ⟨rfl, rfl⟩
  have hfirst := s.finished_of_visitAll_cons _ place hexit
  rw [s.visitAll_pair _ place b hfirst] at hexit ⊢
  obtain ⟨-, ⟨found, hframe, -⟩, htold⟩ := h.twin_self.visitMember_same hplace hab.left_mem hr hr hpass
    (fun _ _ => rfl) hfirst
  have hsameb : SameIn (s.plan.Reads b) ((s.visitMember (s.pass depth) place a frame r).frame ::
      place.enclosing) (frame' :: place.enclosing) := by
    intro id hid
    rw [hframe, Frame.sameIn_leave hab.not_read frame place.enclosing found id hid]
    exact hsame id (hb id hid)
  have hsecond := h.twin_self.visitMember_same hplace hab.right_mem htold.calm_left hr' hpass hsameb hexit
  obtain ⟨found', hlast, hframe'⟩ := hsecond.exists_found
  have hsamea : SameIn (s.plan.Reads a) (frame :: place.enclosing)
      ((s.visitMember (s.pass depth) place b frame' r').frame :: place.enclosing) := by
    intro id hid
    rw [hframe', Frame.sameIn_leave hab.not_reads frame' place.enclosing found' id hid]
    exact hsame id (ha id hid)
  have hthird := h.twin_self.visitMember_same hplace hab.left_mem hr hsecond.told.calm_right hpass hsamea
    hfirst
  obtain ⟨found'', hframe'', hlast'⟩ := hthird.exists_found
  rw [s.visitAll_pair _ place a hsecond.finished]
  have happart : ∀ id, s.plan.Within a.id id → ¬ s.plan.Within b.id id := fun id =>
    h.lawful.not_within hab.left_mem hab.right_mem hab.scope_eq hab.ne
  refine ⟨hthird.finished, fun id halike => ?_, hthird.told.swap hsecond.told happart⟩
  rw [hlast, hlast', hframe', hframe'']
  by_cases hid : id = a.id
  · have hne : id ≠ b.id := fun heq => happart id (Or.inl hid) (Or.inl heq)
    rw [Frame.lookup_leave_of_ne hne]
    refine Frame.lookup_leave_alike ?_ found''
    rw [Frame.lookup_leave_of_ne hne, halike]
  · have hne : id ≠ a.id := hid
    rw [Frame.lookup_leave_of_ne hne]
    refine Frame.lookup_leave_alike ?_ found'
    rw [Frame.lookup_leave_of_ne hne, halike]

/-- Exchanges of members that are apart make no difference to a pass. -/
theorem Orderly.shuffle_follows (h : s.Orderly) (hpass : s.PassesFollow s depth)
    {ns ms : List PlannedNode} (hns : ∀ n ∈ ns, n ∈ s.plan.regionNodes place.region)
    (hshuffle : Shuffle (fun a b => ¬ s.plan.Reads a b.id ∧ ¬ s.plan.Reads b a.id) ns ms)
    (hnodup : ns.Nodup) :
    Follows (s.plan.RegionReads place.region) (fun id => LiesAround place.region (s.plan.scope id))
      place.enclosing place.enclosing (s.visitAll (s.pass depth) place ns)
      (s.visitAll (s.pass depth) place ms) := by
  have hplace : place.Matches place := ⟨rfl, rfl⟩
  have hp := h.lawful
  induction hshuffle with
  | nil => exact h.twin_self.visitAll_follows hplace hpass hns
  | cons n _ ih =>
      obtain ⟨hn, hns⟩ := List.forall_mem_cons.mp hns
      have hfirst := h.twin_self.visitAll_follows hplace hpass (List.forall_mem_singleton.mpr hn)
      exact visitAll_follows_append hfirst (ih hns (List.nodup_cons.mp hnodup).2)
  | @swap a b ns hab =>
      obtain ⟨ha, hns⟩ := List.forall_mem_cons.mp hns
      obtain ⟨hb, hns⟩ := List.forall_mem_cons.mp hns
      obtain ⟨ha, hregion⟩ := hp.mem_regionNodes.mp ha
      obtain ⟨hb, hregion'⟩ := hp.mem_regionNodes.mp hb
      have hne : a ≠ b := fun heq => (List.nodup_cons.mp hnodup).1 (heq ▸ List.mem_cons_self)
      have happart : s.plan.Apart a b :=
        ⟨ha, hb, hp.scope_eq_of_getLast?_eq ha hb (hregion.trans hregion'.symm), hne, hab.1, hab.2⟩
      have hfirst := h.swap_follows hpass place happart
        (fun _ => hp.regionReads_of_reads ha hregion) (fun _ => hp.regionReads_of_reads hb hregion')
      have hwithin : ∀ id, s.plan.Within a.id id ∨ s.plan.Within b.id id →
          LiesAround place.region (s.plan.scope id) := fun id hid =>
        hid.elim (hp.liesAround_of_within ha hregion) (hp.liesAround_of_within hb hregion')
      exact visitAll_follows_append (hfirst.mono (fun _ hid => hid) hwithin)
        (h.twin_self.visitAll_follows hplace hpass hns)
  | trans hshuffle _ ih ih' =>
      have hperm := hshuffle.perm
      exact (ih hns hnodup).trans
        (ih' (fun n hn => hns n (hperm.mem_iff.mpr hn)) (hperm.nodup_iff.mp hnodup))

/-! ### Passes and runs -/

theorem Twin.reads_iff (h : s.Twin s') {n : PlannedNode} {id : String} :
    s.plan.Reads n id ↔ s'.plan.Reads n id := by
  simp only [Plan.Reads, Plan.Within, h.scope_eq, h.nodes_perm.mem_iff]

theorem Orderly.nodup_regionNodes (h : s.Orderly) (region : Option String) :
    (s.plan.regionNodes region).Nodup := by
  refine List.Nodup.of_map PlannedNode.id ?_
  exact h.lawful.map_id_regionNodes region ▸ h.lawful.region_nodup region

theorem Twin.regionNodes_perm (h : s.Twin s') (region : Option String) :
    (s.plan.regionNodes region).Perm (s'.plan.regionNodes region) := by
  refine (List.perm_ext_iff_of_nodup (h.left.nodup_regionNodes region)
    (h.right.nodup_regionNodes region)).mpr fun n => ?_
  rw [h.left.lawful.mem_regionNodes, h.right.lawful.mem_regionNodes, h.nodes_perm.mem_iff]

/-- The passes of two runs of the same nodes do the same. -/
theorem Twin.passesFollow (h : s.Twin s') (depth : Nat) : s.PassesFollow s' depth := by
  induction depth generalizing s s' with
  | zero => exact fun _ _ _ frame frame' r r' _ hr hr' _ =>
      ⟨rfl, fun _ halike => halike, .silent ⟨hr, fun _ => rfl⟩ ⟨hr', fun _ => rfl⟩⟩
  | succ depth ih =>
      intro place place' hplace frame frame' r r' hsame hr hr' hexit
      have hperm := h.regionNodes_perm place.region
      have hpairwise := h.right.pairwise_regionNodes place.region
      simp only [← h.reads_iff] at hpairwise
      have hshuffle := Shuffle.of_perm hperm (h.left.pairwise_regionNodes place.region) hpairwise
      have hordered := h.left.shuffle_follows (ih h.left.twin_self) (fun _ hn => hn)
        hshuffle (h.left.nodup_regionNodes _)
      have hvisited := h.visitAll_follows hplace (ih h) (fun n hn => hperm.mem_iff.mpr hn)
      have hpass := hordered.trans hvisited frame frame' r r' hsame hr hr' hexit
      rw [RunSettings.pass, RunSettings.pass, ← hplace.region_eq]
      exact hpass.note place place'

theorem Orderly.calm_initial (h : s.Orderly) : s.initial.Calm := by
  refine ⟨?_, rfl, List.Pairwise.nil, sorted_statuses_initial _ List.Pairwise.nil⟩
  show (s.cancellation.atStart || s.cancellation.hasStruck 0) = false
  rw [h.free]
  rfl

theorem Twin.length_loops_eq (h : s.Twin s') : s.plan.loops.length = s'.plan.loops.length := by
  have hlength := congrArg List.length h.left.lawful.loops_eq
  have hlength' := congrArg List.length h.right.lawful.loops_eq
  rw [List.length_map, List.length_map] at hlength hlength'
  rw [hlength, hlength', (h.nodes_perm.filter _).length_eq]

/-- A run that ends well is followed by the other run. -/
theorem Twin.execute_alike (h : s.Twin s') {outcome : Outcome} (hok : s.execute.1 = .ok outcome) :
    s.execute.1 = .ok .completed ∧ s'.execute.1 = .ok .completed ∧
      TellAlike (fun _ => True) s.initial s.execute.2 s'.initial s'.execute.2 := by
  have hstart := h.left.silent_send h.left.calm_initial (.runStarted s.plan.start) rfl
  have hstart' := h.right.silent_send h.right.calm_initial (.runStarted s'.plan.start) rfl
  have hplain := h.left.exit_pass (s.plan.loops.length + 1) {} []
    (s.send (.runStarted s.plan.start) s.initial)
  have hpass := h.passesFollow (s.plan.loops.length + 1) {} {} ⟨rfl, rfl⟩ [] [] _ _ (fun _ _ => rfl)
    hstart.calm hstart'.calm
  unfold execute at hok ⊢
  rw [← h.length_loops_eq]
  dsimp only at hok hpass ⊢
  generalize s.pass _ _ _ _ = passed at hok hplain hpass ⊢
  generalize s'.pass _ _ _ _ = passed' at hpass ⊢
  obtain ⟨exit, frame, run⟩ := passed
  obtain ⟨exit', frame', run'⟩ := passed'
  cases exit with
  | failed failure => exact absurd hok (by simp [finish])
  | finished =>
      obtain ⟨rfl, -, htold⟩ := hpass rfl
      have hend := h.left.silent_send htold.calm_left (.runCompleted run.clock) rfl
      have hend' := h.right.silent_send htold.calm_right (.runCompleted run'.clock) rfl
      refine ⟨rfl, rfl, ?_⟩
      exact ((TellAlike.silent hstart hstart').trans (htold.mono fun _ _ => trivial)).trans
        (.silent hend hend')
  | _ => exact hplain.elim

end

end RunSettings

end FlowGraph
