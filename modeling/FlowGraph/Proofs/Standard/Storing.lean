import FlowGraph.Proofs.Standard.Variables

/-!
The standard nodes treat variables as they should: `setVariable` writes one, `getVariable` reads one, and no
other node touches any, whatever conditions are written in and whatever the answers to requests are.
-/

namespace FlowGraph

open Plan

/-- Whether no node that a type makes changes a variable. -/
def NodeType.KeepsStore (t : NodeType) : Prop :=
  ∀ data executor, t.create data = .ok executor → ∀ ctx, (executor.run ctx).store = ctx.store

namespace Standard

/-- A type whose nodes are all the same one leaves variables alone if this one does. -/
theorem keepsStore_of_create_eq {t : NodeType} {executor : Executor}
    (hcreate : ∀ data, t.create data = .ok executor)
    (hkeeps : ∀ ctx, (executor.run ctx).store = ctx.store) : t.KeepsStore := by
  intro data executor' hcreate' ctx
  obtain rfl := Except.ok.inj ((hcreate data).symm.trans hcreate')
  exact hkeeps ctx

theorem httpRequest_keepsStore (client : Http.Client) : (httpRequest client).KeepsStore := by
  intro data executor hcreate ctx
  obtain ⟨method, -, hcreate⟩ := bind_eq_ok hcreate
  split at hcreate
  · exact absurd hcreate (by simp)
  · obtain ⟨url, -, hcreate⟩ := bind_eq_ok hcreate
    obtain rfl := Except.ok.inj hcreate
    show (sendRequest client method url (headersOf data) ctx).store = ctx.store
    unfold sendRequest
    dsimp only
    split
    · rfl
    · split <;> rfl

/-- No standard type but `setVariable` changes variables. -/
theorem keepsStore_of_mem {lib : Libraries} {t : NodeType} (ht : t ∈ typesWith lib)
    (hname : t.name ≠ setVariable.name) : t.KeepsStore := by
  have hkeeps : ∀ u ∈ typesWith lib, u.KeepsStore → t.name = u.name → t.KeepsStore := by
    intro u hu hkept hsame
    obtain rfl := eq_of_name_eq ht hu hsame
    exact hkept
  by_cases heffects : t.name ∈ withEffects
  · simp only [withEffects, List.mem_cons, List.not_mem_nil, or_false] at heffects
    rcases heffects with hbreak | hcontinue | hfinish | hset | hrequest
    · exact hkeeps breakLoop (by simp [typesWith])
        (keepsStore_of_create_eq (fun _ => rfl) fun _ => rfl) hbreak
    · exact hkeeps continueLoop (by simp [typesWith])
        (keepsStore_of_create_eq (fun _ => rfl) fun _ => rfl) hcontinue
    · exact hkeeps finish (by simp [typesWith])
        (keepsStore_of_create_eq (fun _ => rfl) fun _ => rfl) hfinish
    · exact absurd hset hname
    · exact hkeeps (httpRequest lib.client) (by simp [typesWith])
        (httpRequest_keepsStore lib.client) hrequest
  · exact fun data executor hcreate ctx => (plain_of_mem ht heffects data executor hcreate ctx).store_eq

/-- What a `setVariable` node does: it passes its input on and keeps it, or has none. -/
theorem setVariable_writes {data : Json} {executor : Executor}
    (hcreate : setVariable.create data = .ok executor) : ∃ name, textField data "name" = .ok name ∧
      ∀ ctx, (∃ value, Dict.get? ctx.inputs unnamedKey = some value ∧
        (executor.run ctx).result = .ok (.outputs [(unnamedKey, value)]) ∧
        (executor.run ctx).store = Dict.insert ctx.store name value) ∨
      (∃ e, (executor.run ctx).result = .error e) ∧ (executor.run ctx).store = ctx.store := by
  obtain ⟨name, hname, hcreate⟩ := bind_eq_ok hcreate
  obtain rfl := Except.ok.inj hcreate
  refine ⟨name, hname, fun ctx => ?_⟩
  dsimp only
  split
  next e hinput => exact Or.inr ⟨⟨e, rfl⟩, rfl⟩
  next value hinput =>
    refine Or.inl ⟨value, ?_, rfl, rfl⟩
    unfold Context.requireInput at hinput
    split at hinput
    next heq =>
      obtain rfl := Except.ok.inj hinput
      exact heq
    · exact absurd hinput (by simp)

/-- What a `getVariable` node gives. -/
theorem getVariable_reads {data : Json} {executor : Executor}
    (hcreate : getVariable.create data = .ok executor) : ∃ name, textField data "name" = .ok name ∧
      ∀ ctx, (executor.run ctx).result = .ok (.outputs [(unnamedKey,
        (Dict.get? ctx.store name).getD (((data.field? "default").map Value.ofJson).getD .null))]) := by
  obtain ⟨name, hname, hcreate⟩ := bind_eq_ok hcreate
  obtain rfl := Except.ok.inj hcreate
  exact ⟨name, hname, fun ctx => rfl⟩

end Standard

namespace Registry

open Standard

variable {lib : Libraries} {flow : Flow} {start : Option String} {p : Plan}

/-- A node was made by the standard type that it names. -/
theorem exists_standard_of_mem (h : (registryWith lib).resolve flow start = .ok p) {n : PlannedNode}
    (hn : n ∈ p.nodes) : ∃ t ∈ typesWith lib, ∃ data, n.typeName = t.name ∧ t.Makes n.id data n := by
  obtain ⟨node, -, -, t, ht, hname, hmakes⟩ := exists_type_of_mem h hn
  exact ⟨t, (mem_of_get? ht).1, node.data, hname, hmakes⟩

theorem makes_of_typeName (h : (registryWith lib).resolve flow start = .ok p) {n : PlannedNode}
    (hn : n ∈ p.nodes) {t : NodeType} (ht : t ∈ typesWith lib) (hname : n.typeName = t.name) :
    ∃ data, t.Makes n.id data n := by
  obtain ⟨u, hu, data, huname, hmakes⟩ := exists_standard_of_mem h hn
  obtain rfl := eq_of_name_eq ht hu (hname.symm.trans huname)
  exact ⟨data, hmakes⟩

/-- The nodes of a plan made with the standard types treat variables as they should. -/
theorem storing_of_resolve_eq_ok (h : (registryWith lib).resolve flow start = .ok p) : p.Storing := by
  have hmakes : ∀ n ∈ p.nodes, ∀ name, n.sets? = some name →
      ∃ data, setVariable.Makes n.id data n ∧ textField n.data "name" = .ok name := by
    intro n hn name hsets
    unfold PlannedNode.sets? at hsets
    split_ifs at hsets with hname
    obtain ⟨data, hmakes⟩ := makes_of_typeName h hn (by simp [typesWith]) hname
    exact ⟨data, hmakes, eq_ok_of_toOption_eq_some hsets⟩
  refine { keeps := ?_, not_loop := ?_, writes := ?_ }
  · intro n hn hsets ctx
    obtain ⟨t, hmem, data, hname, ht⟩ := exists_standard_of_mem h hn
    by_cases hset : t.name = setVariable.name
    · obtain rfl := eq_of_name_eq hmem (by simp [typesWith]) hset
      obtain ⟨name, hfield, -⟩ := setVariable_writes ht.created
      rw [PlannedNode.sets?, if_pos hname, hfield] at hsets
      exact absurd hsets (by simp [Except.toOption])
    · exact keepsStore_of_mem hmem hset n.data n.executor ht.created ctx
  · intro n hn name hsets
    obtain ⟨data, hmakes, -⟩ := hmakes n hn name hsets
    rw [hmakes.kind_eq]
    rfl
  · intro n hn name hsets ctx
    obtain ⟨data, hmakes, hfield⟩ := hmakes n hn name hsets
    obtain ⟨name', hfield', hwrites⟩ := setVariable_writes hmakes.created
    obtain rfl := Except.ok.inj (hfield.symm.trans hfield')
    exact hwrites ctx

end Registry

/-- How the variables of a run follow its record. -/
structure RunSettings.FollowsRecord (s : RunSettings) : Prop where
  /-- At all times the variables are what the completed visits have written that are recorded so far,
  unless an executor has given a result and the end of its visit has not been recorded yet. -/
  store_eq : ∀ c, s.Reachable c → c.answering? = none → c.run.store = s.plan.written c.run.journal
  /-- From the result of an executor to the record of its visit, what it writes is there already, and
  nothing else. -/
  pending : ∀ c id it, s.Reachable c → c.answering? = some (id, it) →
    c.run.store = withWrite (s.plan.written c.run.journal) (s.plan.writeAt c.run.journal id it)
  /-- So it is in the end. -/
  final : s.execute.2.store = s.plan.written s.execute.2.journal
  /-- A completed visit of a `setVariable` node has written the input of its call, into the variable that
  its data name, and has passed it on. -/
  sets : ∀ v earlier, .visited v :: earlier <:+ s.execute.2.journal → v.status = .completed →
    ∀ n ∈ s.plan.nodes, n.id = v.nodeId → n.typeName = Standard.setVariable.name →
    ∃ name inputs value, textField n.data "name" = .ok name ∧
      .called n.id v.iteration inputs ∈ earlier ∧ Dict.get? inputs unnamedKey = some value ∧
      s.plan.writeOf earlier v = some (name, value) ∧
      earlier.head? = some (.sent (.nodeCompleted n.id [(unnamedKey, value)] v.duration))
  /-- A completed visit of a `getVariable` node gives what was written last before it into the variable
  that its data name, or its default if nothing was. -/
  gets : ∀ v earlier, .visited v :: earlier <:+ s.execute.2.journal → v.status = .completed →
    ∀ n ∈ s.plan.nodes, n.id = v.nodeId → n.typeName = Standard.getVariable.name →
    ∃ name value, textField n.data "name" = .ok name ∧
      (s.plan.LatestWrite name value earlier ∨
        (∀ other, ¬ s.plan.LatestWrite name other earlier) ∧ value = n.fallback) ∧
      earlier.head? = some (.sent (.nodeCompleted n.id [(unnamedKey, value)] v.duration))
  /-- If a step changes the variables, then by a call of a `setVariable` node whose visit is recorded as
  completed. -/
  changed : ∀ c c', s.Reachable c → s.Step c c' → c'.run.store ≠ c.run.store →
    ∃ n ∈ s.plan.nodes, n.typeName = Standard.setVariable.name ∧
      ∃ v, .visited v ∈ s.execute.2.journal ∧ v.nodeId = n.id ∧
        v.iteration = (placeOf c.loops).iteration ∧ v.status = .completed

namespace RunSettings

variable {s : RunSettings} {c c' : Snapshot}

/-- Behind a completed visit of a node that is no loop there is a call, and nothing was recorded from
its beginning on. -/
theorem exists_call_of_completed (hp : s.plan.Lawful) {v : Visit} {earlier : List Entry}
    (h : .visited v :: earlier <:+ s.execute.2.journal) (hstatus : v.status = .completed)
    {n : PlannedNode} (hn : n ∈ s.plan.nodes) (hid : n.id = v.nodeId)
    (hkind : n.kind.loopHandles? = none) : ∃ frame todo loops r inputs events value,
      s.Reachable ⟨.passing frame todo, loops, r⟩ ∧
      (n.executor.run (s.contextOf (placeOf loops) n inputs r.store)).result = .ok value ∧
      earlier = .sent (.nodeCompleted n.id (completion n value).outputs v.duration) ::
        .answered n.id v.iteration (.ok value) :: (messages n.id events ++
          .called n.id v.iteration inputs :: .sent (.nodeStarted n.id n.typeName) :: r.journal) := by
  obtain ⟨c₀, hc₀, hwrites⟩ := (reachable_execute hp).written hp h
  cases hwrites with
  | skipped | skippedWith | skippedFor | failed => exact absurd hstatus (by simp)
  | @completed w done loops r =>
      obtain - | - | hvisiting := standing_of_reachable hp hc₀
      obtain rfl : n = w.node := hp.eq_of_id_eq hn hvisiting.node_mem hid
      rcases hc₀.exists_of_settling_ok hp with ⟨-, value, hanswered, rfl⟩ | ⟨handles, _, _, _, hloop, -⟩
      · obtain ⟨r₀, hcalled, hands⟩ := hanswered.exists_call
        obtain ⟨inputs, events, -, hresult, -, hjournal⟩ := hands.exists_inputs
        rw [store_start] at hresult
        rw [journal_start] at hjournal
        exact ⟨_, _, loops, r₀, inputs, events, value, hcalled, hresult, by rw [hjournal]⟩
      · exact absurd (hkind.symm.trans hloop) (by simp)

theorem stored_set (hp : s.plan.Lawful) (hstoring : s.plan.Storing) {v : Visit} {earlier : List Entry}
    (h : .visited v :: earlier <:+ s.execute.2.journal) (hstatus : v.status = .completed)
    {n : PlannedNode} (hn : n ∈ s.plan.nodes) (hid : n.id = v.nodeId) {name : String}
    (hname : n.sets? = some name) : ∃ inputs value,
      .called n.id v.iteration inputs ∈ earlier ∧ Dict.get? inputs unnamedKey = some value ∧
      s.plan.writeOf earlier v = some (name, value) ∧
      earlier.head? = some (.sent (.nodeCompleted n.id [(unnamedKey, value)] v.duration)) := by
  obtain ⟨frame, todo, loops, r, inputs, events, result, -, hresult, rfl⟩ :=
    exists_call_of_completed hp h hstatus hn hid (hstoring.not_loop n hn name hname)
  obtain ⟨value, hvalue, rfl, -⟩ := hstoring.writes_of_result_eq_ok hn hname hresult
  refine ⟨inputs, value, by simp, hvalue, ?_, rfl⟩
  rw [writeOf, if_pos hstatus, ← hid]
  exact writeAt_called hp hn hname hvalue

theorem stored_get (hp : s.plan.Lawful) (hstoring : s.plan.Storing) {v : Visit} {earlier : List Entry}
    (h : .visited v :: earlier <:+ s.execute.2.journal) (hstatus : v.status = .completed)
    {n : PlannedNode} (hn : n ∈ s.plan.nodes) (hid : n.id = v.nodeId)
    (hkind : n.kind.loopHandles? = none) {name : String}
    (hreads : ∀ ctx, (n.executor.run ctx).result =
      .ok (.outputs [(unnamedKey, (Dict.get? ctx.store name).getD n.fallback)])) : ∃ value,
      (s.plan.LatestWrite name value earlier ∨
        (∀ other, ¬ s.plan.LatestWrite name other earlier) ∧ value = n.fallback) ∧
      earlier.head? = some (.sent (.nodeCompleted n.id [(unnamedKey, value)] v.duration)) := by
  obtain ⟨frame, todo, loops, r, inputs, events, result, hcalled, hresult, hearlier⟩ :=
    exists_call_of_completed hp h hstatus hn hid hkind
  obtain rfl := Except.ok.inj (hresult.symm.trans (hreads _))
  have hwritten : s.plan.written earlier = r.store := by
    rw [hearlier, show r.store = s.plan.written r.journal from hcalled.stored hp hstoring]
    exact written_called n.id v.iteration events inputs _
  refine ⟨(Dict.get? r.store name).getD n.fallback, ?_, by rw [hearlier]; rfl⟩
  simp only [← get?_written_eq_some_iff, hwritten]
  cases Dict.get? r.store name with
  | none => exact Or.inr ⟨fun other => by simp, rfl⟩
  | some value => exact Or.inl rfl

/-- An answer that is no failure completes the visit, if the node sets a variable. -/
theorem Reachable.exists_completed (hp : s.plan.Lawful) (hstoring : s.plan.Storing) {v : OpenVisit}
    (hn : v.node ∈ s.plan.nodes) {name : String} (hname : v.node.sets? = some name) {value : NodeResult}
    {loops : List OpenLoop} {r : RunState} (h : s.Reachable ⟨.answered v (.ok value), loops, r⟩) :
    ∃ visit, .visited visit ∈ s.execute.2.journal ∧ visit.nodeId = v.node.id ∧
      visit.iteration = (placeOf loops).iteration ∧ visit.status = .completed := by
  have hsettling := h.step (.judge (hstoring.not_loop v.node hn name hname))
  rw [Except.bind, checkResult_of_sets hstoring hn hname h, Except.map] at hsettling
  have hrecorded := s.journal_complete (placeOf loops) v.node (completion v.node value).outputs
    (completion v.node value).signal v.started v.frame r
  have hsuffix := (hsettling.step .settle).suffix_execute hp
  exact ⟨_, hsuffix.subset (hrecorded ▸ List.mem_cons_self), rfl, rfl, rfl⟩

/-- What changes the variables is the call of a node that sets one, and its visit completes. -/
theorem Step.visited_of_store_ne (hp : s.plan.Lawful) (hstoring : s.plan.Storing) (hc : s.Reachable c)
    (hstep : s.Step c c') (hne : c'.run.store ≠ c.run.store) :
    ∃ n ∈ s.plan.nodes, n.sets? ≠ none ∧ ∃ v, .visited v ∈ s.execute.2.journal ∧ v.nodeId = n.id ∧
      v.iteration = (placeOf c.loops).iteration ∧ v.status = .completed := by
  have hcall : ∃ v result, c'.phase = .answered v result := by
    by_contra hno
    exact hne (hstep.store_eq fun v result hphase => hno ⟨v, result, hphase⟩)
  obtain ⟨v, result, hphase⟩ := hcall
  have hstanding := standing_of_reachable hp hc
  have hc' := hc.step hstep
  cases hstep with
  | @call frame n todo loops r =>
      obtain ⟨hlevel, -, -⟩ := hstanding
      have hn := hlevel.node_mem
      have hands := s.hands_invoke (placeOf loops) frame n (s.start n r)
      generalize (s.invoke (placeOf loops) frame n (s.start n r)).1 = result at hands hc'
      generalize (s.invoke (placeOf loops) frame n (s.start n r)).2 = r' at hands hc' hne
      cases hands with
      | nothing hstore => exact absurd (hstore.trans (s.store_start n r)) hne
      | @returned inputs _ _ _ hstore =>
          rw [store_start] at hstore hc'
          cases hsets : n.sets? with
          | none => exact absurd (hstore.trans (hstoring.keeps n hn hsets _)) hne
          | some name =>
              rcases hstoring.writes n hn name hsets
                  (s.contextOf (placeOf loops) n inputs r.store) with
                ⟨value, -, hresult, -⟩ | ⟨-, hkept⟩
              · rw [hresult] at hc'
                exact ⟨n, hn, by simp [hsets], hc'.exists_completed hp hstoring hn hsets⟩
              · exact absurd (hstore.trans hkept) hne
  | settle => exact absurd hphase (Phase.next_ne_answered _ _ _ _ _)
  | _ => exact absurd hphase (by simp)

end RunSettings

namespace Registry

open Standard

/-- The variables of a run follow its record, whatever the flow, the inputs and the limits of the run are,
and whatever each of its requests brings. -/
theorem variables_follow_record {lib : Libraries} {flow : Flow} {start : Option String} {s : RunSettings}
    (h : (registryWith lib).resolve flow start = .ok s.plan) : s.FollowsRecord := by
  have hp := lawful_of_resolve_eq_ok h
  have hstoring := storing_of_resolve_eq_ok h
  refine
    { store_eq := fun c hc hnone => ?_
      pending := fun c id it hc hsome => ?_
      final := (RunSettings.reachable_execute hp).stored hp hstoring
      sets := fun v earlier hv hstatus n hn hid hname => ?_
      gets := fun v earlier hv hstatus n hn hid hname => ?_
      changed := fun c c' hc hstep hne => ?_ }
  · rw [hc.stored hp hstoring, Plan.stored, hnone]
  · rw [hc.stored hp hstoring, Plan.stored, hsome]
  · obtain ⟨data, hmakes⟩ := makes_of_typeName h hn (by simp [typesWith]) hname
    obtain ⟨name, hfield, -⟩ := Standard.setVariable_writes hmakes.created
    have hsets : n.sets? = some name := by rw [PlannedNode.sets?, if_pos hname, hfield]; rfl
    obtain ⟨inputs, value, hset⟩ := RunSettings.stored_set hp hstoring hv hstatus hn hid hsets
    exact ⟨name, inputs, value, hfield, hset⟩
  · obtain ⟨data, hmakes⟩ := makes_of_typeName h hn (by simp [typesWith]) hname
    obtain ⟨name, hfield, hreads⟩ := Standard.getVariable_reads hmakes.created
    have hkind : n.kind.loopHandles? = none := by rw [hmakes.kind_eq]; rfl
    obtain ⟨value, hget⟩ := RunSettings.stored_get hp hstoring hv hstatus hn hid hkind hreads
    exact ⟨name, value, hfield, hget⟩
  · obtain ⟨n, hn, hsets, hvisited⟩ := hstep.visited_of_store_ne hp hstoring hc hne
    refine ⟨n, hn, ?_, hvisited⟩
    unfold PlannedNode.sets? at hsets
    split_ifs at hsets with hname
    · exact hname
    · exact absurd rfl hsets

/-- A client whose answer to one and the same request depends on the iteration in which it is sent. -/
def changingClient : Http.Client :=
  { Http.Client.offline with
    send := fun call _ =>
      ([5], .answered ⟨200, [], if call.iteration = [0] then "early" else "late"⟩) }

/-- A variable that is set inside a loop to what a request brings, and read before the loop and after it. -/
def lastAnswer : Flow where
  nodes := [⟨"s", "start", .null⟩,
    ⟨"before", "getVariable", .object [("default", .string "none"), ("name", .string "last")]⟩,
    ⟨"list", "json", .object [("value", .array [.string "a", .string "b", .string "cd"])]⟩,
    ⟨"loop", "forEach", .null⟩, ⟨"check", "if", .object [("condition", .string "value.len() == 1")]⟩,
    ⟨"ask", "httpRequest", .object [("url", .string "http://localhost/")]⟩,
    ⟨"keep", "setVariable", .object [("name", .string "last")]⟩,
    ⟨"after", "getVariable", .object [("name", .string "last")]⟩]
  edges := [⟨"e1", "s", none, "before", none⟩, ⟨"e2", "s", none, "list", none⟩,
    ⟨"e3", "list", none, "loop", some "items"⟩, ⟨"e4", "loop", some "item", "check", none⟩,
    ⟨"e5", "check", some "true", "ask", some "body"⟩, ⟨"e6", "ask", some "body", "keep", none⟩,
    ⟨"e7", "loop", some "done", "after", none⟩]

/-- The second request has another answer than the first one. The iteration that does not match changes
nothing, and what the one before it has written is there when the loop is over. -/
theorem lastAnswer_follows_record :
    ∃ p, (registryWith ⟨Condition.builtIn, changingClient⟩).resolve lastAnswer none = .ok p ∧
      let s : RunSettings := { plan := p }
      s.FollowsRecord ∧ s.execute.2.store = [("last", .text "late")] ∧
        .nodeCompleted "before" [(unnamedKey, .text "none")] 0 ∈ s.execute.2.events ∧
        .nodeCompleted "keep" [(unnamedKey, .text "early")] 0 ∈ s.execute.2.events ∧
        .nodeCompleted "after" [(unnamedKey, .text "late")] 0 ∈ s.execute.2.events := by
  have hrun : (((registryWith ⟨Condition.builtIn, changingClient⟩).resolve lastAnswer none).toOption.map
      fun p => decide
        (let run := (RunSettings.execute { plan := p }).2
        run.store = [("last", .text "late")] ∧
          .nodeCompleted "before" [(unnamedKey, .text "none")] 0 ∈ run.events ∧
          .nodeCompleted "keep" [(unnamedKey, .text "early")] 0 ∈ run.events ∧
          .nodeCompleted "after" [(unnamedKey, .text "late")] 0 ∈ run.events)) = some true := by
    decide +kernel
  obtain ⟨p, hp, hrun⟩ := Option.map_eq_some_iff.mp hrun
  have hok := eq_ok_of_toOption_eq_some hp
  exact ⟨p, hok, variables_follow_record (s := { plan := p }) hok, of_decide_eq_true hrun⟩

end Registry

end FlowGraph
