import SchemaLint.Text.Split

/-!
# Patterns over type paths

Type paths and patterns are sequences of segments written with double colons.  In a pattern `*`
stands for any one segment and `**` for any number of them.

* `PathPattern.matchSegments`: matching on segments.
* `PathPattern.matchesPath`: matching a whole path.
* `PathPattern.matchesType`: matching a path or its end, as for a type that is exported again
  elsewhere.
-/

namespace SchemaLint.PathPattern

/-- Whether some tail of a list, the list itself included, satisfies a predicate. -/
def anyTail (p : List String → Bool) : List String → Bool
  | [] => p []
  | s :: rest => p (s :: rest) || anyTail p rest

/-- Whether a pattern matches a path, both as segments. -/
def matchSegments : List String → List String → Bool
  | [], path => path.isEmpty
  | "**" :: pattern, path => anyTail (matchSegments pattern) path
  | "*" :: pattern, path =>
    match path with
    | [] => false
    | _ :: rest => matchSegments pattern rest
  | literal :: pattern, path =>
    match path with
    | [] => false
    | segment :: rest => segment == literal && matchSegments pattern rest

/-- Whether a pattern matches a whole path. -/
def matchesPath (path pattern : String) : Bool :=
  matchSegments (Text.colonSegments pattern) (Text.colonSegments path)

/-- Whether a pattern matches a path or the end of one. -/
def matchesType (path pattern : String) : Bool :=
  matchesPath path pattern || matchesPath path ("**::" ++ pattern)

/-- Whether one of several candidate paths denotes one of several configured types. -/
def anyMatchesType (candidates patterns : List String) : Bool :=
  candidates.any fun candidate => patterns.any fun pattern => matchesType candidate pattern

/-- A path cut at its last double colon. -/
def splitLast? (path : String) : Option (String × String) :=
  match Text.cutAt? [':', ':'] path.toList.reverse with
  | some (last, parent) => some (String.ofList parent.reverse, String.ofList last.reverse)
  | none => none

end SchemaLint.PathPattern
