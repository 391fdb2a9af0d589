import FlowGraph.Proofs.Run.Agreement
import FlowGraph.Proofs.Run.Interchange

/-!
The trace of a run depends on nothing but what is told of each node. The visits are those that are told
of; the status of a node is that of the last one among its own, and its outputs are the last ones that
are told of it.
-/

namespace FlowGraph

open Plan RunSettings

def Visit.untimed (v : Visit) : Visit := { v with duration := 0 }

/-- Whether two traces differ in nothing but the order of the visits and how long they took. -/
structure Trace.Alike (t t' : Trace) : Prop where
  visits_perm : (t.visits.map Visit.untimed).Perm (t'.visits.map Visit.untimed)
  statuses_eq : t.statuses = t'.statuses
  outputs_eq : t.outputs = t'.outputs

def Telling.visit? : String × Telling → Option Visit
  | (id, .visit iteration status signal) => some ⟨id, iteration, status, signal, 0⟩
  | _ => none

def Telling.outputs? : String × Telling → Option (String × Outputs)
  | (id, .outputs values) => some (id, values)
  | _ => none

section

variable {β : Type} {told told' : List (String × β)}

/-- Where each key comes with the same entries in the same order, the entries are the same. -/
theorem perm_of_filter_eq [DecidableEq β]
    (h : ∀ key, told.filter (·.1 = key) = told'.filter (·.1 = key)) : told.Perm told' := by
  refine List.perm_iff_count.mpr fun entry => ?_
  have hcount : ∀ entries : List (String × β),
      entries.count entry = (entries.filter (·.1 = entry.1)).count entry := fun entries =>
    (List.count_filter (by simp)).symm
  rw [hcount told, h, ← hcount told']

/-- What is found under a key is in the entries with that key. -/
theorem get?_filterMap_filter {γ : Type} {g : String × β → Option (String × γ)}
    (hg : ∀ entry found, g entry = some found → found.1 = entry.1) (entries : List (String × β))
    (key : String) :
    Dict.get? ((entries.filter (·.1 = key)).filterMap g) key = Dict.get? (entries.filterMap g) key := by
  induction entries with
  | nil => rfl
  | cons entry entries ih =>
      cases hfound : g entry with
      | none =>
          rw [List.filterMap_cons_none hfound, ← ih, List.filter_cons]
          split_ifs
          · rw [List.filterMap_cons_none hfound]
          · rfl
      | some found =>
          obtain ⟨other, value⟩ := found
          have hkey : other = entry.1 := hg entry _ hfound
          rw [List.filterMap_cons_some hfound, Dict.get?_cons, List.filter_cons]
          by_cases heq : entry.1 = key
          · simp [heq, hkey, hfound, Dict.get?_cons]
          · simp [heq, hkey, ih]

end

variable {journal journal' : List Entry} {r r' : RunState}

theorem visits_eq_tellings (r : RunState) : r.visits.reverse.map Visit.untimed =
    (r.journal.filterMap Entry.telling?).filterMap Telling.visit? := by
  rw [RunState.visits, List.reverse_reverse, List.map_filterMap, List.filterMap_filterMap]
  refine List.filterMap_congr fun e _ => ?_
  cases e with
  | sent event => cases event <;> rfl
  | _ => rfl

theorem completed_eq_tellings (r : RunState) : (r.events.filterMap Event.completed?).reverse =
    (r.journal.filterMap Entry.telling?).filterMap Telling.outputs? := by
  rw [← List.filterMap_reverse, RunState.events, List.reverse_reverse, RunState.newestEvents,
    List.filterMap_filterMap, List.filterMap_filterMap]
  refine List.filterMap_congr fun e _ => ?_
  cases e with
  | sent event => cases event <;> rfl
  | _ => rfl

theorem settled_eq_tellings (r : RunState) : (r.visits.map Visit.settled).reverse =
    (r.journal.filterMap Entry.telling?).filterMap fun t => (Telling.visit? t).map Visit.settled := by
  rw [← List.map_filterMap, ← visits_eq_tellings, List.map_map, List.map_reverse]
  rfl

/-- What is told of each node says which visits there were. -/
theorem visits_perm_of_tellings_eq (h : ∀ id, tellings r.journal id = tellings r'.journal id) :
    (r.visits.map Visit.untimed).Perm (r'.visits.map Visit.untimed) := by
  have htold := (perm_of_filter_eq h).filterMap Telling.visit?
  rw [← visits_eq_tellings, ← visits_eq_tellings, List.map_reverse, List.map_reverse] at htold
  exact (List.reverse_perm _).symm.trans (htold.trans (List.reverse_perm _))

theorem lastUnder_settled_eq {id : String} (h : tellings r.journal id = tellings r'.journal id) :
    lastUnder (r.visits.map Visit.settled) id = lastUnder (r'.visits.map Visit.settled) id := by
  have hkey : ∀ entry found, (Telling.visit? entry).map Visit.settled = some found →
      found.1 = entry.1 := by
    rintro ⟨id, told⟩ found hfound
    cases told with
    | visit => exact congrArg Prod.fst (Option.some.inj hfound).symm
    | outputs => exact absurd hfound (by simp [Telling.visit?])
  rw [lastUnder, lastUnder, settled_eq_tellings, settled_eq_tellings, ← get?_filterMap_filter hkey,
    ← get?_filterMap_filter hkey (r'.journal.filterMap Entry.telling?)]
  exact congrArg (fun told => Dict.get? (List.filterMap _ told) id) h

theorem lastUnder_completed_eq {id : String} (h : tellings r.journal id = tellings r'.journal id) :
    lastUnder (r.events.filterMap Event.completed?) id =
      lastUnder (r'.events.filterMap Event.completed?) id := by
  have hkey : ∀ entry found, Telling.outputs? entry = some found → found.1 = entry.1 := by
    rintro ⟨id, told⟩ found hfound
    cases told with
    | visit => exact absurd hfound (by simp [Telling.outputs?])
    | outputs => exact congrArg Prod.fst (Option.some.inj hfound).symm
  rw [lastUnder, lastUnder, completed_eq_tellings, completed_eq_tellings, ← get?_filterMap_filter hkey,
    ← get?_filterMap_filter hkey (r'.journal.filterMap Entry.telling?)]
  exact congrArg (fun told => Dict.get? (List.filterMap _ told) id) h

namespace RunSettings

variable {s s' : RunSettings}

/-- Two runs of the same nodes come to the same, whatever the order of the regions. -/
theorem Twin.execute_same (h : s.Twin s') {outcome : Outcome} (hok : s.execute.1 = .ok outcome) :
    s'.execute.1 = .ok outcome ∧ s.execute.2.trace.Alike s'.execute.2.trace := by
  obtain ⟨hended, hended', told, -, htold, htold'⟩ := h.execute_alike hok
  have htellings : ∀ id, tellings s.execute.2.journal id = tellings s'.execute.2.journal id :=
    fun id => (htold.tellings_eq id).trans (htold'.tellings_eq id).symm
  have haccounted := accounted_execute h.left.lawful
  have haccounted' := accounted_execute h.right.lawful
  have hids : ∀ id, id ∈ s.plan.nodes.map (·.id) ↔ id ∈ s'.plan.nodes.map (·.id) :=
    fun id => (h.nodes_perm.map _).mem_iff
  refine ⟨?_, visits_perm_of_tellings_eq htellings, ?_, ?_⟩
  · rw [hended', ← hok, hended]
  · refine htold.calm.sorted_statuses.eq_of_get?_eq htold'.calm.sorted_statuses fun id => ?_
    by_cases hid : id ∈ s.plan.nodes.map (·.id)
    · have hstatus := haccounted.statuses_eq id hid
      have hstatus' := haccounted'.statuses_eq id ((hids id).mp hid)
      rw [hended] at hstatus
      rw [hended'] at hstatus'
      have hlast := lastUnder_settled_eq (htellings id)
      exact hstatus.trans ((congrArg (fun last => some (last.getD .pending)) hlast).trans hstatus'.symm)
    · have hnone := mt (haccounted.mem_statuses_iff id).mp hid
      have hnone' := mt (haccounted'.mem_statuses_iff id).mp (mt (hids id).mpr hid)
      rw [Dict.mem_keys_iff, Option.not_isSome_iff_eq_none] at hnone hnone'
      exact hnone.trans hnone'.symm
  · refine htold.calm.sorted_outputs.eq_of_get?_eq htold'.calm.sorted_outputs fun id => ?_
    exact (haccounted.outputs_eq id).trans
      ((lastUnder_completed_eq (htellings id)).trans (haccounted'.outputs_eq id).symm)

end RunSettings

end FlowGraph
