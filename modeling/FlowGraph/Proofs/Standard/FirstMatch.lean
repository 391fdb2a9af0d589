import FlowGraph.Proofs.Except
import FlowGraph.Standard
import Mathlib.Data.List.Basic

/-!
The first condition that holds. An `if` node evaluates its conditions one after the other in one scope,
so the law of the first match, which evaluates every condition alone, can be broken by a condition that
changes what the ones after it see. Where every condition that is come to says what it says alone, the law
holds, and what stands behind the condition that decides does not matter. That is so in particular where
no evaluation changes the scope.
-/

namespace FlowGraph.Standard

open Condition

variable {language : Language}

/-- What a condition comes to in a scope: whether it holds, or why it has no truth value. -/
def Compiled.outcome (c : Compiled language) (s : language.Scope) : Except String Bool :=
  (language.holds c.expression s).1

/-- The scope that a condition leaves. -/
def Compiled.after (c : Compiled language) (s : language.Scope) : language.Scope :=
  (language.holds c.expression s).2

/-- Whether a result is that of the first condition that decides, every condition being evaluated alone
in the scope `s`: the branch that it names, with the input value and nothing else, or its error; and the
branch for no condition if all of them are false. -/
inductive FirstMatch (s : language.Scope) (value : Value) (conditions : List (Compiled language)) :
    Except NodeError NodeResult → Prop
  | holds {before c after} (hsplit : conditions = before ++ c :: after)
      (hfalse : ∀ b ∈ before, b.outcome s = .ok false) (htrue : c.outcome s = .ok true) :
      FirstMatch s value conditions (.ok (.branch c.id [(c.id, value)]))
  | fails {before c after e} (hsplit : conditions = before ++ c :: after)
      (hfalse : ∀ b ∈ before, b.outcome s = .ok false) (herror : c.outcome s = .error e) :
      FirstMatch s value conditions (.error (.evaluation s!"condition '{c.id}': {e}"))
  | none (hfalse : ∀ c ∈ conditions, c.outcome s = .ok false) :
      FirstMatch s value conditions (.ok (.branch falseHandle [(falseHandle, value)]))

theorem FirstMatch.cons {s : language.Scope} {value : Value} {c : Compiled language}
    {conditions : List (Compiled language)} {result : Except NodeError NodeResult}
    (hc : c.outcome s = .ok false) (h : FirstMatch s value conditions result) :
    FirstMatch s value (c :: conditions) result := by
  cases h with
  | holds hsplit hfalse htrue =>
      exact .holds (congrArg (c :: ·) hsplit) (List.forall_mem_cons.mpr ⟨hc, hfalse⟩) htrue
  | fails hsplit hfalse herror =>
      exact .fails (congrArg (c :: ·) hsplit) (List.forall_mem_cons.mpr ⟨hc, hfalse⟩) herror
  | none hfalse => exact .none (List.forall_mem_cons.mpr ⟨hc, hfalse⟩)

/-- The branch for no condition is that of conditions that are all false. -/
theorem FirstMatch.forall_false {s : language.Scope} {value : Value}
    {conditions : List (Compiled language)} {outputs : Outputs}
    (hids : falseHandle ∉ conditions.map (·.id))
    (h : FirstMatch s value conditions (.ok (.branch falseHandle outputs))) :
    ∀ c ∈ conditions, c.outcome s = .ok false := by
  generalize hresult : Except.ok (NodeResult.branch falseHandle outputs) = result at h
  cases h with
  | @holds before c after hsplit =>
      obtain ⟨hid, -⟩ := NodeResult.branch.inj (Except.ok.inj hresult)
      have hmem : c ∈ conditions := hsplit ▸ List.mem_append_right _ List.mem_cons_self
      exact absurd (List.mem_map.mpr ⟨c, hmem, hid.symm⟩) hids
  | fails => exact absurd hresult (by simp)
  | none hfalse => exact hfalse

/-- Whether every condition that is come to, from the scope `s` on, says what it says alone. -/
def Undisturbed (alone : language.Scope) : List (Compiled language) → language.Scope → Prop
  | [], _ => True
  | c :: cs, s =>
    c.outcome s = c.outcome alone ∧ (c.outcome alone = .ok false → Undisturbed alone cs (c.after s))

instance decidableUndisturbed (alone : language.Scope) :
    (conditions : List (Compiled language)) → (s : language.Scope) →
      Decidable (Undisturbed alone conditions s)
  | [], _ => isTrue trivial
  | c :: cs, s =>
    have := decidableUndisturbed alone cs (c.after s)
    inferInstanceAs (Decidable (c.outcome s = c.outcome alone ∧
      (c.outcome alone = .ok false → Undisturbed alone cs (c.after s))))

/-- Conditions that leave the scope as it was do not disturb the ones after them. -/
theorem undisturbed_of_keeps {alone : language.Scope} {conditions : List (Compiled language)}
    (h : ∀ c ∈ conditions, c.after alone = alone) : Undisturbed alone conditions alone := by
  induction conditions with
  | nil => trivial
  | cons c cs ih =>
      obtain ⟨hc, hcs⟩ := List.forall_mem_cons.mp h
      exact ⟨rfl, fun _ => hc.symm ▸ ih hcs⟩

/-- What an `if` node makes of the condition that it has chosen. -/
def branchTo (value : Value) (chosen : Except NodeError (Option String)) :
    Except NodeError NodeResult :=
  chosen.map fun id => .branch (id.getD falseHandle) [(id.getD falseHandle, value)]

theorem branchOn_eq {conditions : List (Compiled language)} {ctx : Context} {scope : language.Scope}
    (h : language.scope ctx.mainOrNull ctx.store = .ok scope) :
    branchOn conditions ctx = .ofResult ctx (branchTo ctx.mainOrNull (firstHolding conditions scope)) := by
  simp only [branchOn, h]
  cases firstHolding conditions scope <;> rfl

theorem branchOn_eq_of_error {conditions : List (Compiled language)} {ctx : Context} {e : String}
    (h : language.scope ctx.mainOrNull ctx.store = .error e) :
    branchOn conditions ctx = .ofResult ctx (.error (.evaluation e)) := by
  simp only [branchOn, h]

theorem firstHolding_cons (c : Compiled language) (cs : List (Compiled language))
    (s : language.Scope) : firstHolding (c :: cs) s =
      match c.outcome s with
      | .error e => .error (.evaluation s!"condition '{c.id}': {e}")
      | .ok true => .ok (some c.id)
      | .ok false => firstHolding cs (c.after s) := by
  rw [firstHolding, Compiled.outcome, Compiled.after]
  obtain ⟨e | b, s'⟩ := language.holds c.expression s
  · rfl
  · cases b <;> rfl

theorem evaluation_of_firstHolding {compiled : List (Compiled language)} {scope : language.Scope}
    {e : NodeError} (h : firstHolding compiled scope = .error e) : ∃ reason, e = .evaluation reason := by
  induction compiled generalizing scope with
  | nil => exact absurd h (by simp [firstHolding])
  | cons c compiled ih =>
      rw [firstHolding_cons] at h
      split at h
      · exact ⟨_, (Except.error.inj h).symm⟩
      · exact absurd h (by simp)
      · exact ih h

/-- What a visit of an `if` node comes to: an error of an evaluation, or the branch that was chosen. -/
theorem branchOn_cases (conditions : List (Compiled language)) (ctx : Context) :
    (∃ reason, branchOn conditions ctx = .ofResult ctx (.error (.evaluation reason))) ∨
      ∃ scope chosen, firstHolding conditions scope = .ok chosen ∧
        branchOn conditions ctx = .ofResult ctx
          (.ok (.branch (chosen.getD falseHandle) [(chosen.getD falseHandle, ctx.mainOrNull)])) := by
  cases hscope : language.scope ctx.mainOrNull ctx.store with
  | error e => exact Or.inl ⟨e, branchOn_eq_of_error hscope⟩
  | ok scope =>
      rw [branchOn_eq hscope]
      cases hfirst : firstHolding conditions scope with
      | error e =>
          obtain ⟨reason, rfl⟩ := evaluation_of_firstHolding hfirst
          exact Or.inl ⟨reason, rfl⟩
      | ok chosen => exact Or.inr ⟨scope, chosen, hfirst, rfl⟩

variable {alone s : language.Scope} {before after rest : List (Compiled language)} {c : Compiled language}

theorem firstMatch_of_undisturbed {conditions : List (Compiled language)} (value : Value)
    (h : Undisturbed alone conditions s) :
    FirstMatch alone value conditions (branchTo value (firstHolding conditions s)) := by
  induction conditions generalizing s with
  | nil => exact .none (by simp)
  | cons c cs ih =>
      obtain ⟨hsame, hnext⟩ := h
      rw [firstHolding_cons, hsame]
      cases houtcome : c.outcome alone with
      | error e => exact .fails (List.nil_append _).symm (by simp) houtcome
      | ok b =>
          cases b with
          | true => exact .holds (List.nil_append _).symm (by simp) houtcome
          | false => exact (ih (hnext houtcome)).cons houtcome

/-- What stands behind the condition that decides does not matter. -/
theorem firstHolding_append_of_decides (h : Undisturbed alone (before ++ c :: after) s)
    (hfalse : ∀ b ∈ before, b.outcome alone = .ok false) (hdecides : c.outcome alone ≠ .ok false) :
    firstHolding (before ++ c :: rest) s = firstHolding (before ++ c :: after) s := by
  induction before generalizing s with
  | nil =>
      obtain ⟨hsame, -⟩ := h
      rw [List.nil_append, List.nil_append, firstHolding_cons, firstHolding_cons, hsame]
      cases houtcome : c.outcome alone with
      | error e => rfl
      | ok b =>
          cases b with
          | true => rfl
          | false => exact absurd houtcome hdecides
  | cons b before ih =>
      obtain ⟨hb, hbefore⟩ := List.forall_mem_cons.mp hfalse
      obtain ⟨hsame, hnext⟩ := h
      rw [List.cons_append, List.cons_append, firstHolding_cons, firstHolding_cons, hsame, hb]
      exact ih (hnext hb) hbefore

theorem map_id_of_compile {authored : List Authored} {conditions : List (Compiled language)}
    (h : compile language authored = .ok conditions) : conditions.map (·.id) = authored.map (·.id) := by
  induction authored generalizing conditions with
  | nil =>
      obtain rfl := Except.ok.inj h
      rfl
  | cons a authored ih =>
      rw [compile] at h
      split at h
      · exact absurd h (by simp)
      · obtain ⟨rest, hrest, h⟩ := bind_eq_ok h
        obtain rfl := Except.ok.inj h
        rw [List.map_cons, List.map_cons, ih hrest]

theorem create_ifElse {data : Json} {conditions : List (Compiled language)}
    (h : compile language (conditionsOf data) = .ok conditions) :
    (ifElse language).create data = .ok ⟨ifType, branchOn conditions⟩ := by
  show (compile language (conditionsOf data) >>= fun cs =>
    Except.ok (Executor.mk ifType (branchOn cs))) = _
  rw [h]
  rfl

theorem result_branchOn {conditions : List (Compiled language)} {ctx : Context} {scope : language.Scope}
    (hscope : language.scope ctx.mainOrNull ctx.store = .ok scope) {chosen : Option String}
    (h : firstHolding conditions scope = .ok chosen) : (branchOn conditions ctx).result =
      .ok (.branch (chosen.getD falseHandle) [(chosen.getD falseHandle, ctx.mainOrNull)]) := by
  rw [branchOn_eq hscope, h]
  rfl

/-- An `if` node follows the first condition that decides, as long as its conditions do not disturb one
another; which they do not if none of them changes the scope. The conditions behind the one that decides
play no part, and the input value goes out as it came in. -/
theorem ifElse_follows_first_match {data : Json} {executor : Executor}
    (h : (ifElse language).create data = .ok executor) :
    ∃ conditions, compile language (conditionsOf data) = .ok conditions ∧
      conditions.map (·.id) = (conditionsOf data).map (·.id) ∧
      ∀ ctx, (executor.run ctx).steps = [] ∧ (executor.run ctx).store = ctx.store ∧
        (∀ e, language.scope ctx.mainOrNull ctx.store = .error e →
          (executor.run ctx).result = .error (.evaluation e)) ∧
        ∀ scope, language.scope ctx.mainOrNull ctx.store = .ok scope →
          ((∀ c ∈ conditions, c.after scope = scope) → Undisturbed scope conditions scope) ∧
          (Undisturbed scope conditions scope →
            FirstMatch scope ctx.mainOrNull conditions (executor.run ctx).result ∧
            ∀ before c after, conditions = before ++ c :: after →
              (∀ b ∈ before, b.outcome scope = .ok false) → c.outcome scope ≠ .ok false →
              ∀ rest, branchOn (before ++ c :: rest) ctx = executor.run ctx) := by
  obtain ⟨conditions, hcompiled, hexecutor⟩ := bind_eq_ok h
  obtain rfl := Except.ok.inj hexecutor
  refine ⟨conditions, hcompiled, map_id_of_compile hcompiled, fun ctx => ?_⟩
  dsimp only
  cases hscope : language.scope ctx.mainOrNull ctx.store with
  | error e =>
      rw [branchOn_eq_of_error hscope]
      refine ⟨rfl, rfl, fun e' he => ?_, fun scope hok => absurd hok (by simp)⟩
      obtain rfl := Except.error.inj he
      rfl
  | ok scope =>
      rw [branchOn_eq hscope]
      refine ⟨rfl, rfl, fun e he => absurd he (by simp), fun scope' hok => ?_⟩
      obtain rfl := Except.ok.inj hok
      refine ⟨undisturbed_of_keeps, fun hundisturbed => ⟨firstMatch_of_undisturbed _ hundisturbed, ?_⟩⟩
      rintro before c after rfl hfalse hdecides rest
      rw [branchOn_eq hscope, firstHolding_append_of_decides hundisturbed hfalse hdecides]

/-- Whether a value is empty, whether a variable lists it, and a condition without a truth value. -/
def listing : Json :=
  .object [(conditionsField, .array [Authored.toJson ⟨"empty", "value.is_empty()"⟩,
    Authored.toJson ⟨"listed", "variables.colours.contains(value)"⟩,
    Authored.toJson ⟨"broken", "value"⟩])]

/-- A visit with a text that a variable lists. -/
def listedVisit : Context :=
  ⟨"n", [(unnamedKey, .text "red")], listing, [], [("colours", .array [.text "blue", .text "red"])]⟩

/-- The second condition of `listing` is the first one that holds, and the third one is not come to. -/
theorem listed_is_first_match : ∃ executor, (ifElse builtIn).create listing = .ok executor ∧
    ∃ conditions scope, compile builtIn (conditionsOf listing) = .ok conditions ∧
      builtIn.scope listedVisit.mainOrNull listedVisit.store = .ok scope ∧
      Undisturbed scope conditions scope ∧
      FirstMatch scope (.text "red") conditions (executor.run listedVisit).result ∧
      (executor.run listedVisit).result = .ok (.branch "listed" [("listed", .text "red")]) := by
  let scope : builtIn.Scope := Condition.Scope.ofRun listedVisit.mainOrNull listedVisit.store
  have hcompiled : ((compile builtIn (conditionsOf listing)).toOption.map fun cs =>
      (decide (Undisturbed scope cs scope), (firstHolding cs scope).toOption)) =
        some (true, some (some "listed")) := by
    decide +kernel
  obtain ⟨conditions, hsome, hconditions⟩ := Option.map_eq_some_iff.mp hcompiled
  have hcompile := eq_ok_of_toOption_eq_some hsome
  obtain ⟨hundisturbed, hfirst⟩ := Prod.mk.inj hconditions
  have hundisturbed := of_decide_eq_true hundisturbed
  have hcreate := create_ifElse hcompile
  obtain ⟨conditions', hcompile', -, hlaw⟩ := ifElse_follows_first_match hcreate
  obtain rfl := Except.ok.inj (hcompile.symm.trans hcompile')
  obtain ⟨-, -, -, hlaw⟩ := hlaw listedVisit
  have hmatch := ((hlaw scope rfl).2 hundisturbed).1
  exact ⟨_, hcreate, conditions, scope, hcompile, rfl, hundisturbed, hmatch,
    result_branchOn rfl (eq_ok_of_toOption_eq_some hfirst)⟩

/-- The first condition takes an item away before it turns out to be false, so that the second one, which
would hold alone, no longer does. -/
def popping : Json :=
  .object [(conditionsField, .array [Authored.toJson ⟨"a", "value.pop() == false"⟩,
    Authored.toJson ⟨"b", "value.len() == 2"⟩])]

/-- A visit with a list of two items. -/
def pairVisit : Context :=
  ⟨"n", [(unnamedKey, .array [.bool true, .bool true])], popping, [], []⟩

/-- Conditions can disturb one another: of the two conditions of `popping` the second one holds alone,
and yet the branch for no condition is taken. -/
theorem first_match_fails_after_pop : ∃ executor, (ifElse builtIn).create popping = .ok executor ∧
    ∃ conditions scope, compile builtIn (conditionsOf popping) = .ok conditions ∧
      builtIn.scope pairVisit.mainOrNull pairVisit.store = .ok scope ∧
      conditions.map (·.outcome scope) = [.ok false, .ok true] ∧
      (executor.run pairVisit).result =
        .ok (.branch falseHandle [(falseHandle, .array [.bool true, .bool true])]) ∧
      ¬ FirstMatch scope pairVisit.mainOrNull conditions (executor.run pairVisit).result := by
  let scope : builtIn.Scope := Condition.Scope.ofRun pairVisit.mainOrNull pairVisit.store
  have hcompiled : ((compile builtIn (conditionsOf popping)).toOption.map fun cs =>
      (cs.map (·.id), cs.map fun c => (c.outcome scope).toOption,
        (firstHolding cs scope).toOption)) =
          some (["a", "b"], [some false, some true], some none) := by
    decide +kernel
  obtain ⟨conditions, hsome, hconditions⟩ := Option.map_eq_some_iff.mp hcompiled
  have hcompile := eq_ok_of_toOption_eq_some hsome
  obtain ⟨hids, houtcomes⟩ := Prod.mk.inj hconditions
  obtain ⟨houtcomes, hfirst⟩ := Prod.mk.inj houtcomes
  have hresult : (branchOn conditions pairVisit).result = _ :=
    result_branchOn rfl (eq_ok_of_toOption_eq_some hfirst)
  obtain ⟨a, b, rfl⟩ : ∃ a b, conditions = [a, b] :=
    List.length_eq_two.mp (by simpa using congrArg List.length hids)
  simp only [List.map_cons, List.map_nil, List.cons.injEq, and_true] at houtcomes
  have ha := eq_ok_of_toOption_eq_some houtcomes.1
  have hb := eq_ok_of_toOption_eq_some houtcomes.2
  refine ⟨_, create_ifElse hcompile, [a, b], scope, hcompile, rfl, by simp [ha, hb], hresult,
    fun hmatch => ?_⟩
  have hmatch : FirstMatch scope _ [a, b] (branchOn [a, b] pairVisit).result := hmatch
  rw [hresult] at hmatch
  have hfalse := hmatch.forall_false (by rw [hids]; decide) b (by simp)
  exact absurd (hfalse.symm.trans hb) (by simp)

end FlowGraph.Standard
