import Lexing.Diagnostic

/-!
# Collected diagnostics

Diagnostics of several texts are gathered in order and reported together, each followed by a blank
line, with their count at the end.
-/

namespace Lexing

structure Collector where
  diagnostics : List Diagnostic := []
  limit : Int := 100

namespace Collector

def add (collector : Collector) (d : Diagnostic) : Collector :=
  { collector with diagnostics := collector.diagnostics ++ [d] }

def count (collector : Collector) : Nat :=
  collector.diagnostics.length

def isEmpty (collector : Collector) : Bool :=
  collector.diagnostics.isEmpty

def isFull (collector : Collector) : Bool :=
  collector.limit ≤ collector.count

def summary (collector : Collector) : String :=
  if collector.count = 1 then "1 error" else s!"{collector.count} errors"

def report (collector : Collector) : String :=
  "\n".intercalate
    (collector.diagnostics.flatMap (fun d => [d.render, ""]) ++ [collector.summary])

end Collector

end Lexing
