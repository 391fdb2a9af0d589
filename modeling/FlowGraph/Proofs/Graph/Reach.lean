import FlowGraph.Graph.Reach
import Mathlib.Data.List.Basic
import Mathlib.Tactic.Common

/-!
The walk finds enough. Its steps are bounded by the pending vertices and by the arcs that leave
vertices not seen yet; a vertex that is expanded trades its arcs for pending vertices, so the bound
goes down with every step and the walk ends only when nothing is pending. What it returns is then
closed under the arcs, except perhaps at vertices that it was told to regard as seen. And it finds no
more than that: whatever is passed on along the arcs holds of everything that it returns.
-/

namespace FlowGraph.Graph

variable {α : Type} [DecidableEq α]

/-- The arcs that leave vertices outside of a list. -/
def arcsOutside (arcs : List (α × α)) (seen : List α) : List (α × α) :=
  arcs.filter (·.1 ∉ seen)

theorem length_arcsOutside_cons (arcs : List (α × α)) (seen : List α) {v : α} (hv : v ∉ seen) :
    (successors arcs v).length + (arcsOutside arcs (v :: seen)).length =
      (arcsOutside arcs seen).length := by
  induction arcs with
  | nil => rfl
  | cons arc arcs ih =>
      obtain ⟨tail, head⟩ := arc
      simp only [successors, arcsOutside, List.length_map, List.filter_cons] at ih ⊢
      by_cases htail : tail = v
      · subst htail
        simp only [hv, List.mem_cons_self, not_true_eq_false, not_false_eq_true, decide_true,
          decide_false, if_true, List.length_cons, Bool.false_eq_true, if_false]
        omega
      · by_cases hseen : tail ∈ seen
        · simpa [htail, hseen] using ih
        · have hcons : tail ∉ v :: seen := by simp [htail, hseen]
          simp only [htail, hseen, hcons, not_false_eq_true, decide_true, decide_false, if_true,
            List.length_cons, Bool.false_eq_true, if_false]
          omega

/-- The steps suffice: nothing that is pending or seen gets lost, and what was not seen before is
left along every arc. -/
theorem walk_closed (arcs : List (α × α)) (steps : Nat) (pending seen : List α)
    (hsteps : pending.length + (arcsOutside arcs seen).length ≤ steps) :
    (∀ v ∈ pending, v ∈ walk arcs steps pending seen) ∧
    (∀ v ∈ seen, v ∈ walk arcs steps pending seen) ∧
    ∀ v ∈ walk arcs steps pending seen, v ∉ seen →
      ∀ w, (v, w) ∈ arcs → w ∈ walk arcs steps pending seen := by
  induction steps generalizing pending seen with
  | zero =>
      have hpending : pending = [] := List.length_eq_zero_iff.mp (by omega)
      subst hpending
      exact ⟨by simp, fun v hv => hv, fun v hv hnot => absurd hv hnot⟩
  | succ steps ih =>
      cases pending with
      | nil => exact ⟨by simp, fun v hv => hv, fun v hv hnot => absurd hv hnot⟩
      | cons v pending =>
          rw [walk]
          split_ifs with hv
          · obtain ⟨hp, hs, hclosed⟩ := ih pending seen (by simp only [List.length_cons] at hsteps; omega)
            refine ⟨fun w hw => ?_, hs, hclosed⟩
            rcases List.mem_cons.mp hw with rfl | hw
            · exact hs _ hv
            · exact hp w hw
          · have hcount := length_arcsOutside_cons arcs seen hv
            obtain ⟨hp, hs, hclosed⟩ := ih (successors arcs v ++ pending) (v :: seen) (by
              simp only [List.length_append, List.length_cons] at hsteps ⊢
              omega)
            refine ⟨fun w hw => ?_, fun w hw => hs w (List.mem_cons_of_mem _ hw), ?_⟩
            · rcases List.mem_cons.mp hw with rfl | hw
              · exact hs _ List.mem_cons_self
              · exact hp w (List.mem_append_right _ hw)
            · intro w hw hnot x harc
              by_cases hwv : w = v
              · subst hwv
                exact hp x (List.mem_append_left _ (mem_successors.mpr harc))
              · exact hclosed w hw (by simp [hwv, hnot]) x harc

/-- What is reached is closed under the arcs, except at vertices that were seen before. -/
theorem reach_closed (arcs : List (α × α)) (pending seen : List α) :
    (∀ v ∈ pending, v ∈ reach arcs pending seen) ∧
    (∀ v ∈ seen, v ∈ reach arcs pending seen) ∧
    ∀ v ∈ reach arcs pending seen, v ∉ seen →
      ∀ w, (v, w) ∈ arcs → w ∈ reach arcs pending seen :=
  walk_closed arcs _ pending seen (Nat.add_le_add_left (List.length_filter_le _ _) _)

theorem mem_reach_of_arc {arcs : List (α × α)} {pending : List α} {v w : α}
    (hv : v ∈ reach arcs pending []) (harc : (v, w) ∈ arcs) : w ∈ reach arcs pending [] :=
  (reach_closed arcs pending []).2.2 v hv (by simp) w harc

theorem subset_walk (arcs : List (α × α)) (steps : Nat) (pending seen : List α) :
    seen ⊆ walk arcs steps pending seen := by
  induction steps generalizing pending seen with
  | zero => exact List.Subset.refl _
  | succ steps ih =>
      cases pending with
      | nil => exact List.Subset.refl _
      | cons v pending =>
          rw [walk]
          split_ifs with hv
          · exact ih pending seen
          · exact List.Subset.trans (List.subset_cons_self v seen) (ih _ (v :: seen))

theorem nodup_walk (arcs : List (α × α)) (steps : Nat) (pending : List α) {seen : List α}
    (hseen : seen.Nodup) : (walk arcs steps pending seen).Nodup := by
  induction steps generalizing pending seen with
  | zero => exact hseen
  | succ steps ih =>
      cases pending with
      | nil => exact hseen
      | cons v pending =>
          rw [walk]
          split_ifs with hv
          · exact ih pending hseen
          · exact ih _ (List.nodup_cons.mpr ⟨hv, hseen⟩)

/-- What holds of the vertices a walk starts with and is passed on along the arcs that it follows holds
of all that it finds. -/
theorem walk_induction {arcs : List (α × α)} {steps : Nat} {pending seen : List α} {P : α → Prop}
    (hpending : ∀ v ∈ pending, P v) (hseen : ∀ v ∈ seen, P v)
    (harc : ∀ v ∈ walk arcs steps pending seen, v ∉ seen → P v → ∀ w, (v, w) ∈ arcs → P w) :
    ∀ v ∈ walk arcs steps pending seen, P v := by
  induction steps generalizing pending seen with
  | zero => exact hseen
  | succ steps ih =>
      cases pending with
      | nil => exact hseen
      | cons v pending =>
          obtain ⟨hv, hpending⟩ := List.forall_mem_cons.mp hpending
          rw [walk] at harc ⊢
          split_ifs at harc ⊢ with hmem
          · exact ih hpending hseen harc
          · have hwalk := subset_walk arcs steps (successors arcs v ++ pending) (v :: seen)
            refine ih (fun w hw => ?_) (List.forall_mem_cons.mpr ⟨hv, hseen⟩) fun w hw hnot =>
              harc w hw fun hmem => hnot (List.mem_cons_of_mem v hmem)
            rcases List.mem_append.mp hw with hw | hw
            · exact harc v (hwalk List.mem_cons_self) hmem hv w (mem_successors.mp hw)
            · exact hpending w hw

/-- What is reached is reached as well where there are at least the arcs that the walk follows. -/
theorem reach_subset_of_arcs {arcs arcs' : List (α × α)} {pending pending' seen seen' : List α}
    (harcs : ∀ v ∈ reach arcs pending seen, v ∉ seen → ∀ w, (v, w) ∈ arcs → (v, w) ∈ arcs')
    (hpending : pending ⊆ pending') (hseen : ∀ v, v ∈ seen ↔ v ∈ seen') :
    reach arcs pending seen ⊆ reach arcs' pending' seen' := by
  obtain ⟨hreached, hkept, hclosed⟩ := reach_closed arcs' pending' seen'
  refine walk_induction (fun v hv => hreached v (hpending hv))
    (fun v hv => hkept v ((hseen v).mp hv)) fun v hmem hnot hv w hw => ?_
  exact hclosed v hv (mt (hseen v).mpr hnot) w (harcs v hmem hnot w hw)

/-- What is reached depends on the arcs, the pending vertices and the vertices seen before, not on the
order in which they are listed. -/
theorem reach_subset {arcs arcs' : List (α × α)} {pending pending' seen seen' : List α}
    (harcs : arcs ⊆ arcs') (hpending : pending ⊆ pending') (hseen : ∀ v, v ∈ seen ↔ v ∈ seen') :
    reach arcs pending seen ⊆ reach arcs' pending' seen' :=
  reach_subset_of_arcs (fun _ _ _ _ hw => harcs hw) hpending hseen

end FlowGraph.Graph
