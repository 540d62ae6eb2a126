import SchemaLint.Diagnostic

/-!
# Collecting findings

A sink holds findings in the order of file, line, column, rule and message, and holds at most one
with the same five: the one that came first.

* `Diagnostic.compareKey`: the order of findings.
* `Sink.insert`, `Sink.collect`: adding findings.
* `Sink.toList`: the findings in order.
-/

namespace SchemaLint

/-- The order of findings: by file, line, column, rule and message. -/
def Diagnostic.compareKey (a b : Diagnostic) : Ordering :=
  (a.location.file.compare b.location.file).then <|
  (Ord.compare a.location.line b.location.line).then <|
  (Ord.compare a.location.column b.location.column).then <|
  (Ord.compare a.rule b.rule).then <|
  Ord.compare a.message b.message

/-- Findings in order, without repeats. -/
structure Sink where
  /-- The findings, in the order of their keys. -/
  toList : List Diagnostic
deriving Inhabited

namespace Sink

/-- A sink without findings. -/
def empty : Sink := ⟨[]⟩

/-- A finding put at its place among ordered findings, unless one with its key is there. -/
def insertInto (d : Diagnostic) : List Diagnostic → List Diagnostic
  | [] => [d]
  | e :: rest =>
    match d.compareKey e with
    | .lt => d :: e :: rest
    | .eq => e :: rest
    | .gt => e :: insertInto d rest

/-- A sink with one more finding. -/
def insert (s : Sink) (d : Diagnostic) : Sink :=
  ⟨insertInto d s.toList⟩

/-- A sink with more findings, taken in order. -/
def collect (s : Sink) (ds : List Diagnostic) : Sink :=
  ds.foldl insert s

/-- Number of findings. -/
def size (s : Sink) : Nat :=
  s.toList.length

/-- Whether there are no findings. -/
def isEmpty (s : Sink) : Bool :=
  s.toList.isEmpty

end Sink

end SchemaLint
