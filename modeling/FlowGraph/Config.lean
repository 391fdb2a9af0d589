import FlowGraph.Run.Notice

/-!
Settings of runs, as they are stored. Absent fields take their defaults.
-/

namespace FlowGraph

structure Config where
  /-- How many events may wait for a listener. -/
  eventBufferSize : Nat := 1000
  /-- The milliseconds that one visit of a node may take. -/
  nodeTimeout : Option Nat := none
  /-- The node where runs start; the only entry of a flow if there is none. -/
  startNode : Option String := none
  notices : NoticeFilter := {}
deriving DecidableEq, Repr, Inhabited

namespace Config

def record : Record Config where
  name := "RuntimeConfig"
  fields := [
    .withDefault "event_buffer_size" .word fun eventBufferSize c => { c with eventBufferSize },
    .withDefault "node_timeout_ms" (.optional .word) fun nodeTimeout c => { c with nodeTimeout },
    .withDefault "start_node" (.optional .string) fun startNode c => { c with startNode },
    .withDefault "notices" NoticeFilter.record.read fun notices c => { c with notices }]
  initial := {}

def parse (text : String) : Except ReadError Config :=
  Reader.ofText record.read text

def ofJson (j : Json) : Except ReadError Config :=
  Reader.ofJson record.read j

end Config

end FlowGraph
