import FlowGraph.Proofs.Migrate
import FlowGraph.Proofs.Standard.Conformity

/-!
Migrating a flow of standard nodes keeps its meaning. The schemas of all standard types are steady: the
defaults of their fields may stand in the fields, and no validator looks at the version of the data.
-/

namespace FlowGraph.Standard

open Schema

variable {lib : Libraries}

theorem plain_steady : Schema.plain.Steady :=
  steady_ofVersion 1

theorem group_steady : group.schema.Steady :=
  ((plain_steady.field (by decide) (Or.inr ⟨rfl, rfl⟩)).field (by decide) (Or.inr ⟨rfl, rfl⟩)).field
    (by decide) (Or.inr ⟨rfl, rfl⟩)

theorem note_steady : note.schema.Steady :=
  plain_steady.field (by decide) (Or.inr ⟨rfl, rfl⟩)

theorem constant_steady (name label : String) (category : Category) {kind : FieldKind} {default : Json}
    (hdefault : kind.Fits default) : (constant name label category kind default).schema.Steady :=
  plain_steady.field (by decide) (Or.inr hdefault)

theorem jsonStringify_steady : jsonStringify.schema.Steady :=
  plain_steady.field (by decide) (Or.inr ⟨rfl, rfl⟩)

theorem ifElse_steady (language : Condition.Language) : (ifElse language).schema.Steady := by
  refine (((steady_ofVersion 2).field (by decide) (Or.inr ⟨rfl, rfl⟩)).migration _ _).checkedBy
    fun payload version => ?_
  rw [validateConditions, validateConditions, Dict.get?_insert_of_ne _ _ (by decide)]

theorem math_steady : math.schema.Steady := by
  refine ((plain_steady.field (by decide) (Or.inr ⟨rfl, rfl⟩)).field (by decide)
    (Or.inr ⟨rfl, rfl⟩)).checkedBy fun payload version => ?_
  rw [validateMath, validateMath, Dict.get?_insert_of_ne _ _ (by decide)]

theorem validateVariableName_insert (payload : Dict Json) (version : Json) :
    validateVariableName (Dict.insert payload versionField version) = validateVariableName payload := by
  rw [validateVariableName, validateVariableName, Dict.get?_insert_of_ne _ _ (by decide)]

/-- A variable that has no value is null unless the data says otherwise. -/
theorem getVariable_steady : getVariable.schema.Steady :=
  ((plain_steady.required (by decide)).field (by decide) (Or.inl rfl)).checkedBy
    validateVariableName_insert

theorem setVariable_steady : setVariable.schema.Steady :=
  (plain_steady.required (by decide)).checkedBy validateVariableName_insert

theorem log_steady : log.schema.Steady := by
  refine ((plain_steady.field (by decide) (Or.inr ⟨rfl, rfl⟩)).field (by decide)
    (Or.inr ⟨rfl, rfl⟩)).checkedBy fun payload version => ?_
  rw [validateLevel, validateLevel, Dict.get?_insert_of_ne _ _ (by decide)]

theorem delay_steady : delay.schema.Steady := by
  refine (plain_steady.field (by decide) (Or.inr ⟨rfl, rfl⟩)).checkedBy fun payload version => ?_
  rw [validateMillis, validateMillis, Dict.get?_insert_of_ne _ _ (by decide)]

theorem httpRequest_steady (client : Http.Client) : (httpRequest client).schema.Steady := by
  refine (((((steady_ofVersion 2).field (by decide) (Or.inr ⟨rfl, rfl⟩)).field (by decide)
    (Or.inr ⟨rfl, rfl⟩)).field (by decide) (Or.inr ⟨rfl, rfl⟩)).migration _ _).checkedBy
      fun payload version => ?_
  rw [validateRequest, validateRequest, Dict.get?_insert_of_ne _ _ (by decide),
    Dict.get?_insert_of_ne _ _ (by decide)]

theorem steady_of_mem {t : NodeType} (ht : t ∈ typesWith lib) : t.schema.Steady := by
  simp only [typesWith, List.mem_cons, List.not_mem_nil, or_false] at ht
  rcases ht with rfl | rfl | rfl | rfl | rfl | rfl | rfl | rfl | rfl | rfl | rfl | rfl | rfl | rfl |
    rfl | rfl | rfl | rfl | rfl | rfl | rfl
  · exact plain_steady
  · exact ifElse_steady _
  · exact plain_steady
  · exact plain_steady
  · exact plain_steady
  · exact plain_steady
  · exact group_steady
  · exact note_steady
  · exact constant_steady _ _ _ ⟨rfl, rfl⟩
  · exact constant_steady _ _ _ ⟨rfl, rfl⟩
  · exact constant_steady _ _ _ ⟨rfl, rfl⟩
  · exact constant_steady _ _ _ ⟨rfl, rfl⟩
  · exact plain_steady
  · exact jsonStringify_steady
  · exact math_steady
  · exact plain_steady
  · exact getVariable_steady
  · exact setVariable_steady
  · exact log_steady
  · exact delay_steady
  · exact httpRequest_steady _

theorem registry_steady (lib : Libraries) : (registryWith lib).Steady :=
  fun _ _ ht => steady_of_mem (mem_of_get? ht).1

/-- Migrating a flow of standard nodes keeps its edges, its nodes and their types; migrating it a second
time changes nothing. From every start the migrated flow comes to what the flow comes to, in every order
in which the sets of the two are gone through: to the same plan, which is then the only result that
either may have and has the migrated data, or to the same error. A flow that cannot be migrated is refused
in every order. -/
theorem migrated_flow_resolves_alike (lib : Libraries) (f : Flow) :
    (∀ g, (registryWith lib).migrateFlow f = .ok g →
      (registryWith lib).migrateFlow g = .ok g ∧ g.edges = f.edges ∧
      g.nodes.map (fun n => (n.id, n.typeName)) = f.nodes.map (fun n => (n.id, n.typeName)) ∧
      ∀ start,
        (∀ order, (registryWith lib).resolveIn order g start = (registryWith lib).resolveIn order f start) ∧
        (∀ result, (registryWith lib).MayResolveTo g start result ↔
          (registryWith lib).MayResolveTo f start result) ∧
        ∀ p, (registryWith lib).MayResolveTo f start (.ok p) →
          (∀ result, (registryWith lib).MayResolveTo g start result → result = .ok p) ∧
          ∀ planned ∈ p.nodes, ∃ m ∈ g.nodes, planned.id = m.id ∧ planned.data = m.data) ∧
    ∀ e, (registryWith lib).migrateFlow f = .error e →
      ∀ order start, ∃ e', (registryWith lib).resolveIn order f start = .error e' := by
  have hsteady := registry_steady lib
  constructor
  · intro g hg
    refine ⟨hsteady.migrateFlow_migrateFlow hg, (Registry.migrateFlow_eq_ok_iff.mp hg).2,
      Registry.names_eq_of_migrateFlow hg, fun start => ?_⟩
    have hsame := fun order => hsteady.resolveIn_eq hg order start
    have hiff : ∀ result, (registryWith lib).MayResolveTo g start result ↔
        (registryWith lib).MayResolveTo f start result :=
      fun result => exists_congr fun order => by rw [hsame]
    refine ⟨hsame, hiff, fun p hp => ⟨fun result hresult => ((hiff result).mp hresult).eq_ok hp, ?_⟩⟩
    obtain ⟨order, hp⟩ := hp
    exact fun planned => Registry.exists_data_eq hg hp
  · intro e he order start
    cases hresolve : (registryWith lib).resolveIn order f start with
    | error e' => exact ⟨e', rfl⟩
    | ok p =>
        obtain ⟨g, hg⟩ := Registry.exists_migrateFlow_eq_ok hresolve
        exact absurd (he.symm.trans hg) (by simp)

/-- A flow of nodes as version 1 wrote them. -/
def firstVersions : Flow where
  nodes := [⟨"s", "start", .null⟩, ⟨"check", "if", .object [("condition", .string "true")]⟩,
    ⟨"ask", "httpRequest", .object [("headers", .null), ("method", .string " post ")]⟩]
  edges := [⟨"e1", "s", none, "check", none⟩, ⟨"e2", "check", some "true", "ask", some "body"⟩]

/-- The condition has become the first one of a list, and the method is in capitals. -/
def secondVersions : Flow where
  nodes := [⟨"s", "start", .object [("_version", .ofUInt32 1)]⟩,
    ⟨"check", "if", .object [("_version", .ofUInt32 2),
      ("conditions", .array [.object [("expression", .string "true"), ("id", .string "true")]])]⟩,
    ⟨"ask", "httpRequest", .object [("_version", .ofUInt32 2), ("headers", .object []),
      ("method", .string "POST"), ("url", .string "")]⟩]
  edges := firstVersions.edges

/-- A flow with a condition that is no text. -/
def unmigratable : Flow where
  nodes := [⟨"s", "start", .null⟩, ⟨"check", "if", .object [("condition", .bool true)]⟩]

/-- A flow with two loops, each of which feeds its own items. -/
def strayLoops : Flow where
  nodes := [⟨"s", "start", .null⟩, ⟨"L1", "forEach", .null⟩, ⟨"x1", "log", .null⟩,
    ⟨"L2", "forEach", .null⟩, ⟨"x2", "log", .null⟩]
  edges := [⟨"e1", "s", none, "L1", some "next"⟩, ⟨"e2", "s", none, "L2", some "next"⟩,
    ⟨"e3", "L1", some "item", "x1", none⟩, ⟨"e4", "x1", none, "L1", some "items"⟩,
    ⟨"e5", "L2", some "item", "x2", none⟩, ⟨"e6", "x2", none, "L2", some "items"⟩]

/-- The order of the flow the other way round. -/
def backwards : TypedFlow.SetOrder :=
  ⟨List.reverse, List.reverse_perm, List.reverse, List.reverse_perm⟩

/-- The flow of version 1 and the one of version 2 are accepted, with one plan in every order, which has
the later data. Either loop of `strayLoops` may be complained about, before it is migrated and after; and
the flow that cannot be migrated is refused in every order. -/
theorem resolves_of_firstVersions :
    registry.migrateFlow secondVersions = .ok secondVersions ∧
      (∃ p, ∀ order, registry.resolveIn order firstVersions none = .ok p ∧
        registry.resolveIn order secondVersions none = .ok p ∧
        ∀ planned ∈ p.nodes, ∃ m ∈ secondVersions.nodes, planned.id = m.id ∧ planned.data = m.data) ∧
      (∃ g, registry.migrateFlow strayLoops = .ok g ∧ g ≠ strayLoops ∧
        registry.MayResolveTo g none (.error (.graph (.cycle "L1"))) ∧
        registry.MayResolveTo g none (.error (.graph (.cycle "L2")))) ∧
      ∀ order, ∃ e, registry.resolveIn order unmigratable none = .error e := by
  have hmigrated : (registry.migrateFlow firstVersions).toOption = some secondVersions := by
    decide +kernel
  have haccepted : (registry.resolve firstVersions none).toOption.isSome = true := by
    decide +kernel
  have hrefused : (registry.migrateFlow unmigratable).toOption = none := by
    decide +kernel
  have hstray : ((registry.migrateFlow strayLoops).toOption.map fun g => decide (g ≠ strayLoops)) =
      some true := by
    decide +kernel
  have hfirst : errorOf (registry.resolveIn .listed strayLoops none) = some (.graph (.cycle "L1")) := by
    decide +kernel
  have hlast : errorOf (registry.resolveIn backwards strayLoops none) = some (.graph (.cycle "L2")) := by
    decide +kernel
  refine ⟨?_, ?_, ?_, fun order => ?_⟩
  · exact ((migrated_flow_resolves_alike .builtIn firstVersions).1 _
      (eq_ok_of_toOption_eq_some hmigrated)).1
  · obtain ⟨p, hp⟩ := Option.isSome_iff_exists.mp haccepted
    have hmay : registry.MayResolveTo firstVersions none (.ok p) :=
      ⟨.listed, eq_ok_of_toOption_eq_some hp⟩
    obtain ⟨-, -, -, hresolve⟩ := (migrated_flow_resolves_alike .builtIn firstVersions).1 _
      (eq_ok_of_toOption_eq_some hmigrated)
    obtain ⟨hsame, -, hplan⟩ := hresolve none
    obtain ⟨honly, hdata⟩ := hplan p hmay
    refine ⟨p, fun order => ?_⟩
    have hlater : registry.resolveIn order secondVersions none = .ok p := honly _ ⟨order, rfl⟩
    exact ⟨(hsame order).symm.trans hlater, hlater, hdata⟩
  · obtain ⟨g, hg, hne⟩ := Option.map_eq_some_iff.mp hstray
    have hg := eq_ok_of_toOption_eq_some hg
    obtain ⟨-, -, -, hresolve⟩ := (migrated_flow_resolves_alike .builtIn strayLoops).1 g hg
    obtain ⟨-, hmay, -⟩ := hresolve none
    exact ⟨g, hg, of_decide_eq_true hne, (hmay _).mpr ⟨.listed, eq_error_of_errorOf hfirst⟩,
      (hmay _).mpr ⟨backwards, eq_error_of_errorOf hlast⟩⟩
  · cases he : registry.migrateFlow unmigratable with
    | ok g => exact absurd hrefused (by simp [he, Except.toOption])
    | error e => exact (migrated_flow_resolves_alike .builtIn unmigratable).2 e he order none

end FlowGraph.Standard
