import RootedHeap.Text.Quoted

/-! # Heap counters and statistics -/

namespace RootedHeap

/-- What a heap has counted since it was created. -/
structure Counters where
  allocations : Nat := 0
  /-- Objects whose values were dropped by a collection. -/
  collected : Nat := 0
  /-- Operations that ended with something to collect. -/
  collections : Nat := 0
  rootsAcquired : Nat := 0
  rootsReleased : Nat := 0
  connectPasses : Nat := 0
  disconnectPasses : Nat := 0
  /-- Scans for cycles that a disconnect may have orphaned. -/
  cycleScans : Nat := 0
  /-- Objects that lost a root tag in such a scan. -/
  orphansFound : Nat := 0
  /-- How often somebody had to wait for the heap. -/
  contentionCount : Nat := 0
  /-- The time spent waiting, in microseconds, modulo `2^64`. -/
  contentionMicros : UInt64 := 0
  deriving DecidableEq, Repr

/-- Record a wait of `secs` seconds and `nanos` nanoseconds, in whole microseconds. -/
def Counters.contend (c : Counters) (secs nanos : Nat) : Counters :=
  { c with
    contentionCount := c.contentionCount + 1
    contentionMicros := c.contentionMicros + ((secs * 1000000000 + nanos) / 1000).toUInt64 }

/-- A heap at one moment. -/
structure Stats where
  liveObjects : Nat := 0
  liveRoots : Nat := 0
  allocations : Nat := 0
  collected : Nat := 0
  collections : Nat := 0
  rootsAcquired : Nat := 0
  rootsReleased : Nat := 0
  connectPasses : Nat := 0
  disconnectPasses : Nat := 0
  cycleScans : Nat := 0
  orphansFound : Nat := 0
  contentionCount : Nat := 0
  deriving DecidableEq, Repr

namespace Stats

def capture (c : Counters) (liveObjects liveRoots : Nat) : Stats where
  liveObjects := liveObjects
  liveRoots := liveRoots
  allocations := c.allocations
  collected := c.collected
  collections := c.collections
  rootsAcquired := c.rootsAcquired
  rootsReleased := c.rootsReleased
  connectPasses := c.connectPasses
  disconnectPasses := c.disconnectPasses
  cycleScans := c.cycleScans
  orphansFound := c.orphansFound
  contentionCount := c.contentionCount

/-- The figures by name, in the order in which they are written. -/
def entries (s : Stats) : List (String × Nat) := [
  ("live_objects", s.liveObjects),
  ("live_roots", s.liveRoots),
  ("allocations", s.allocations),
  ("collected", s.collected),
  ("collections", s.collections),
  ("roots_acquired", s.rootsAcquired),
  ("roots_released", s.rootsReleased),
  ("connect_passes", s.connectPasses),
  ("disconnect_passes", s.disconnectPasses),
  ("cycle_scans", s.cycleScans),
  ("orphans_found", s.orphansFound),
  ("lock_contention_count", s.contentionCount)]

/-- `n` in decimal, filled with blanks on the left to eight characters. -/
def column (n : Nat) : String :=
  let digits := Nat.toDigits 10 n
  String.ofList (List.replicate (8 - digits.length) ' ' ++ digits)

/-- The statistics for a reader, one figure a line. -/
def text (s : Stats) : String :=
  "Heap Statistics:\n" ++
  "  Live objects:       " ++ column s.liveObjects ++ "\n" ++
  "  Live roots:         " ++ column s.liveRoots ++ "\n" ++
  "  Allocations:        " ++ column s.allocations ++ "\n" ++
  "  Collected:          " ++ column s.collected ++ s!" (in {s.collections} collections)\n" ++
  "  Roots:              " ++ column s.rootsAcquired ++ s!" acquired, {s.rootsReleased} released\n" ++
  "  Passes:             " ++ column s.connectPasses ++
    s!" connect, {s.disconnectPasses} disconnect\n" ++
  "  Cycle scans:        " ++ column s.cycleScans ++ s!" ({s.orphansFound} orphans)\n" ++
  "  Lock contention:    " ++ column s.contentionCount ++ "\n"

/-- The statistics as an indented JSON object whose lines after the first start with `margin`. -/
def pretty (margin : String) (s : Stats) : String :=
  let lines := s.entries.map fun e =>
    margin ++ "  " ++ Text.jsonQuoted e.1 ++ s!": {e.2}"
  "\x7b\n" ++ String.intercalate ",\n" lines ++ "\n" ++ margin ++ "\x7d"

end Stats

/-- The outcome of a named demonstration. -/
structure Report where
  name : String
  stats : Stats
  deriving DecidableEq, Repr

namespace Report

def text (r : Report) : String := "== " ++ r.name ++ " ==\n" ++ r.stats.text

/-- The report as an indented JSON object whose lines after the first start with `margin`. -/
def pretty (margin : String) (r : Report) : String :=
  "\x7b\n" ++
  margin ++ "  \"name\": " ++ Text.jsonQuoted r.name ++ ",\n" ++
  margin ++ "  \"stats\": " ++ r.stats.pretty (margin ++ "  ") ++ "\n" ++
  margin ++ "\x7d"

end Report

end RootedHeap
