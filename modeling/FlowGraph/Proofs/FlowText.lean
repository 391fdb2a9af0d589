import FlowGraph.Flow
import FlowGraph.Proofs.Json.Printed

/-!
Flows as texts. The text of a flow reads as the flow, with all its ids, types, handles and data and in
the same order, as long as the text opens no more containers at once than a reader admits; a flow that
opens more cannot be read back. Flows that were read are never of that kind, so a flow that comes from
a text is the same after it has been written and read again.

What this takes from numbers is that the written form of a floating-point number in the data reads as
that number. Integers always do.
-/

namespace FlowGraph

theorem reads_ofOption (s : Option String) : Reader.string.optional.Reads (.ofOption s) s := fun reading => by
  cases s <;> exact (reading.within_zero _).symm

theorem FlowNode.reads {n : FlowNode} (h : n.data.Ordered) : FlowNode.record.read.Reads n.toJson n :=
  Record.Fills.reads
    (.cons rfl (by decide) (Record.sets_needed (Reader.reads_string n.id) _) <|
      .cons rfl (by decide) (Record.sets_needed (Reader.reads_string n.typeName) _) <|
      .cons rfl (by decide) (Record.sets_withDefault (Reader.reads_json h) _) <|
      Record.fills_nil _ _)
    rfl

theorem FlowEdge.reads (e : FlowEdge) : FlowEdge.record.read.Reads e.toJson e :=
  Record.Fills.reads
    (.cons rfl (by decide) (Record.sets_needed (Reader.reads_string e.id) _) <|
      .cons rfl (by decide) (Record.sets_needed (Reader.reads_string e.source) _) <|
      .cons rfl (by decide) (Record.sets_withDefault (reads_ofOption e.sourceHandle) _) <|
      .cons rfl (by decide) (Record.sets_needed (Reader.reads_string e.target) _) <|
      .cons rfl (by decide) (Record.sets_withDefault (reads_ofOption e.targetHandle) _) <|
      Record.fills_nil _ _)
    rfl

theorem FlowNode.depth_toJson (n : FlowNode) : n.toJson.depth = n.data.depth + 1 := by
  simp [FlowNode.toJson, Json.depth, Json.depthFields]

theorem FlowEdge.depth_toJson (e : FlowEdge) : e.toJson.depth = 1 := by
  have hhandle : ∀ s, (Json.ofOption s).depth = 0 := fun s => by cases s <;> rfl
  simp [FlowEdge.toJson, Json.depth, Json.depthFields, hhandle]

namespace Flow

/-- The objects in the data of a flow are maps: they list their fields in the order of the keys, each
once. -/
def Ordered (f : Flow) : Prop :=
  ∀ n ∈ f.nodes, n.data.Ordered

/-- The written form of each floating-point number in the data of a flow reads as the number. -/
def FloatsReadBack (f : Flow) : Prop :=
  ∀ x finite, Number.float x finite ∈ f.toJson.numbers → (Number.float x finite).ReadsBack

variable {f : Flow} {text : String}

theorem reads (h : f.Ordered) : Flow.record.read.Reads f.toJson f :=
  Record.Fills.reads
    (.cons rfl (by decide) (Record.sets_withDefault
      (Reader.reads_list f.nodes fun n hn => FlowNode.reads (h n hn)) _) <|
      .cons rfl (by decide) (Record.sets_withDefault
        (Reader.reads_list f.edges fun e _ => FlowEdge.reads e) _) <|
      Record.fills_nil _ _)
    rfl

theorem FloatsReadBack.scans (h : f.FloatsReadBack) : ∀ n ∈ f.toJson.numbers, n.Scans
  | .int n range, _ => Number.scans_int n range
  | .float x finite, hn => (h x finite hn).scans

theorem parse_pretty (hordered : f.Ordered) (hfloats : f.FloatsReadBack) :
    Flow.parse f.pretty = if f.toJson.depth ≤ 127 then .ok f else .error .tooDeep := by
  unfold Flow.parse Reader.ofText Flow.pretty
  rw [Raw.ofText_pretty hfloats.scans]
  dsimp only
  rw [Flow.reads hordered]
  exact Reading.within_bind_ok rfl

/-- A flow opens three containers around the data of a node: its own, the list of nodes and the node. -/
theorem depth_toJson_le_iff : f.toJson.depth ≤ 127 ↔ ∀ n ∈ f.nodes, n.data.depth ≤ 124 := by
  have hnodes : Json.depthItems (f.nodes.map FlowNode.toJson) ≤ 125 ↔ ∀ n ∈ f.nodes, n.data.depth ≤ 124 := by
    rw [Json.depthItems_le_iff, List.forall_mem_map]
    refine forall₂_congr fun n _ => ?_
    rw [FlowNode.depth_toJson]
    omega
  have hedges : Json.depthItems (f.edges.map FlowEdge.toJson) ≤ 125 := by
    simp [Json.depthItems_le_iff, FlowEdge.depth_toJson]
  rw [← hnodes]
  simp only [Flow.toJson, Json.depth, Json.depthFields]
  omega

end Flow

theorem FlowNode.ordered_of_read {reading : Reading} {raw : Raw} {n : FlowNode}
    (h : FlowNode.record.read reading raw = .ok n) : n.data.Ordered ∧ n.data.depth + 1 ≤ reading.room := by
  refine Record.holds_of_read (P := fun n => n.data.Ordered ∧ n.data.depth + 1 ≤ reading.room) h
    fun inner henter => ?_
  rw [Reading.room_of_enter henter]
  refine ⟨⟨trivial, Nat.succ_le_succ (Nat.zero_le _)⟩, fun field hfield => ?_⟩
  simp only [FlowNode.record, List.mem_cons, List.not_mem_nil, or_false] at hfield
  rcases hfield with rfl | rfl | rfl
  · exact Record.keeps_of_reader (fun _ _ => rfl) fun _ _ _ _ hn => hn
  · exact Record.keeps_of_reader (fun _ _ => rfl) fun _ _ _ _ hn => hn
  · refine Record.keeps_of_reader (fun _ _ => rfl) fun raw data _ hdata _ => ?_
    obtain ⟨hordered, hdepth⟩ := Raw.ordered_of_toJson raw hdata
    exact ⟨hordered, Nat.succ_le_succ hdepth⟩

namespace Flow

theorem ordered_of_read {raw : Raw} (h : Flow.record.read .text raw = .ok f) :
    ∀ n ∈ f.nodes, n.data.Ordered ∧ n.data.depth ≤ 124 := by
  refine Record.holds_of_read (P := fun f => ∀ n ∈ f.nodes, n.data.Ordered ∧ n.data.depth ≤ 124) h
    fun inner henter => ⟨fun n hn => absurd hn List.not_mem_nil, fun field hfield => ?_⟩
  have hinner : 127 = inner.room + 1 := Reading.room_of_enter henter
  simp only [Flow.record, List.mem_cons, List.not_mem_nil, or_false] at hfield
  rcases hfield with rfl | rfl
  · refine Record.keeps_of_reader (fun _ _ => rfl) fun raw nodes _ hnodes _ n hn => ?_
    obtain ⟨innermost, henter', hread⟩ := Reader.exists_of_list hnodes
    obtain ⟨raw', hraw⟩ := hread n hn
    obtain ⟨hordered, hdepth⟩ := FlowNode.ordered_of_read hraw
    have hroom := Reading.room_of_enter henter'
    exact ⟨hordered, by omega⟩
  · exact Record.keeps_of_reader (fun _ _ => rfl) fun _ _ _ _ hf => hf

theorem ordered_of_parse (h : Flow.parse text = .ok f) : f.Ordered ∧ f.toJson.depth ≤ 127 := by
  have hnodes := ordered_of_read (Reader.of_ofText h).1
  exact ⟨fun n hn => (hnodes n hn).1, depth_toJson_le_iff.mpr fun n hn => (hnodes n hn).2⟩

end Flow

/-- A flow reads back from its text if the text opens at most 127 containers at once, and from no deeper
text; and a flow that was read from any text is such a flow, so that writing it and reading it again
gives the same flow. -/
theorem flow_text_roundtrip :
    (∀ f : Flow, f.Ordered → f.FloatsReadBack →
      Flow.parse f.pretty = if f.toJson.depth ≤ 127 then .ok f else .error .tooDeep) ∧
    (∀ (text : String) (f : Flow), Flow.parse text = .ok f → f.FloatsReadBack →
      f.Ordered ∧ Flow.parse f.pretty = .ok f) := by
  refine ⟨fun f hordered hfloats => Flow.parse_pretty hordered hfloats, fun text f hparse hfloats => ?_⟩
  obtain ⟨hordered, hdepth⟩ := Flow.ordered_of_parse hparse
  have hback := Flow.parse_pretty hordered hfloats
  rw [if_pos hdepth] at hback
  exact ⟨hordered, hback⟩

/-- A flow with characters that are escaped, empty containers, a fraction, an absent handle and a handle
without a name. -/
def scribbles : Flow where
  nodes := [
    ⟨"a\"\\\n\x01é", "note", .object [
      ("empty", .object []),
      ("list", .array [.null, .number (.float 0.5 (by decide +kernel)),
        .number (.int (-3) (by decide)), .array [], .string "\t𝄞"])]⟩,
    ⟨"b", "", .null⟩]
  edges := [⟨"e", "b", none, "b", some ""⟩]

/-- The same flow as somebody else may write it: in another order, with more fields and with fewer. -/
def scribblesText : String :=
  "\x7b\"edges\": [[\"e\", \"b\", null, \"b\", \"\"]], \"more\": \x7b\x7d, \"nodes\": [" ++
    "\x7b\"type\": \"note\", \"data\": \x7b\"list\": [null, 5e-1, -3, [], \"\\t\\ud834\\udd1e\"], \"empty\": " ++
    "\x7b\x7d\x7d, \"id\": \"a\\\"\\\\\\n\\u0001é\"\x7d, \x7b\"id\": \"b\", \"type\": \"\"\x7d]\x7d"

theorem flow_text_roundtrip_of_scribbles :
    scribbles.Ordered ∧ scribbles.FloatsReadBack ∧
      Flow.parse scribbles.pretty =
        (if scribbles.toJson.depth ≤ 127 then .ok scribbles else .error .tooDeep) ∧
      scribblesText ≠ scribbles.pretty ∧ Flow.parse scribblesText = .ok scribbles ∧
      scribbles.Ordered ∧ Flow.parse scribbles.pretty = .ok scribbles := by
  have hordered : scribbles.Ordered := by
    have hkeys : "empty" < "list" := by decide
    intro n hn
    rcases List.mem_pair.mp hn with rfl | rfl
    · exact ⟨List.pairwise_pair.mpr hkeys, ⟨List.Pairwise.nil, trivial⟩,
        ⟨trivial, trivial, trivial, trivial, trivial, trivial⟩, trivial⟩
    · trivial
  have hfloats : scribbles.FloatsReadBack := by
    have hall : ∀ n ∈ scribbles.toJson.numbers, n.ReadsBack := by
      unfold Number.ReadsBack
      decide +kernel
    exact fun x finite hx => hall _ hx
  have hparse : Flow.parse scribblesText = .ok scribbles := by decide +kernel
  exact ⟨hordered, hfloats, flow_text_roundtrip.1 scribbles hordered hfloats, by decide +kernel, hparse,
    flow_text_roundtrip.2 scribblesText scribbles hparse hfloats⟩

end FlowGraph
