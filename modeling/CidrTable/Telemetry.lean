import CidrTable.Binary64
import CidrTable.Report

/-! Metrics forwarded to a collector.

A collector takes names and natural numbers. Counts go through as they are; gauge values
and samples are cut to whole numbers of 64 bits. A gauge's changes, which the collector
has no sign for, and descriptions are not forwarded. -/
namespace CidrTable

/-- One thing told to the recorder of metrics. -/
inductive Update where
  | countUp (name : String) (n : Nat)
  | countTo (name : String) (n : Nat)
  | gaugeTo (name : String) (x : Binary64)
  | gaugeUp (name : String) (x : Binary64)
  | gaugeDown (name : String) (x : Binary64)
  | sample (name : String) (x : Binary64)
  | describe (name : String)

/-- What the collector gets of an update. -/
def Update.forwarded : Update → List Metric
  | countUp name n => [⟨name, n⟩]
  | countTo name n => [⟨name, n⟩]
  | gaugeTo name x => [⟨name, x.toWord64⟩]
  | sample name x => [⟨name, x.toWord64⟩]
  | gaugeUp .. => []
  | gaugeDown .. => []
  | describe _ => []

/-- The collector in use, if one is registered. Only the first registration counts. -/
structure Collector where
  registered : Bool := false

/-- Registers a collector: the state after it, and whether it is the one in use. -/
def Collector.register (c : Collector) : Collector × Bool := (⟨true⟩, !c.registered)

end CidrTable
