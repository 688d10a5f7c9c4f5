import SemanticNet.Dump.Basic
import SemanticNet.Json.Value
import SemanticNet.Store.Audit

/-!
# Counts and findings as JSON

What a store tells about itself, as objects. `fields` gives the fields alone where a larger object
takes them in.
-/

namespace SemanticNet

def Dump.Summary.toJson (d : Dump.Summary) : Json := .object [
  ("segments", .ofNat d.segments),
  ("elements", .ofNat d.elements),
  ("contents", .ofNat d.contents),
  ("bytes", .ofNat d.bytes)]

def Statistics.fields (s : Statistics) : List (String × Json) := [
  ("node_count", .ofNat s.census.nodes.toNat),
  ("link_count", .ofNat s.census.links.toNat),
  ("connector_count", .ofNat s.census.connectors.toNat),
  ("segments_count", .ofNat s.segments),
  ("empty_slots", .ofNat s.vacant)]

def SegmentUsage.toJson (u : SegmentUsage) : Json := .object [
  ("num", .ofNat u.number),
  ("capacity", .ofNat u.capacity),
  ("last_engaged", .ofNat u.lastEngaged),
  ("live", .ofNat u.live)]

def Audit.fields (r : Audit) : List (String × Json) := [
  ("elements_checked", .ofNat r.elements),
  ("connectors", .ofNat r.connectors),
  ("outgoing_total", .ofNat r.outgoing),
  ("incoming_total", .ofNat r.incoming),
  ("errors", .array (r.findings.map fun f => .text f.message))]

def Metrics.toJson (m : Metrics) : Json := .object [
  ("nodes_created", .ofNat m.nodesCreated),
  ("nodes_erased", .ofNat m.nodesErased),
  ("links_created", .ofNat m.linksCreated),
  ("links_erased", .ofNat m.linksErased),
  ("connectors_created", .ofNat m.connectorsCreated),
  ("connectors_erased", .ofNat m.connectorsErased),
  ("segments_allocated", .ofNat m.segmentsAllocated),
  ("full_memory_refusals", .ofNat m.fullMemoryRefusals),
  ("ring_scans_out", .ofNat m.ringScansOut),
  ("ring_scans_in", .ofNat m.ringScansIn)]

/-- A text, or nothing. -/
def Json.ofText? (t : Option String) : Json := (t.map .text).getD .null

/-- All settings but the repository. -/
def Settings.fields (s : Settings) : List (String × Json) := [
  ("max_segments", .ofNat s.maxSegments.toNat),
  ("segment_capacity", .ofNat s.segmentCapacity.toNat),
  ("monitor_shards", .ofNat s.monitorShards),
  ("clear", .bool s.clear),
  ("save_on_shutdown", .bool s.saveOnShutdown),
  ("log_level", .ofText? s.logLevel),
  ("metrics", .bool s.metrics)]

end SemanticNet
