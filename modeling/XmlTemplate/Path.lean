import XmlTemplate.Text.Basic

/-!
# Paths

Templates and dictionaries are addressed by paths of segments joined by `/`. A backslash
separates segments too. `normalize` drops empty and `.` segments and lets `..` remove the
segment before it, or nothing at the root; `confine?` refuses a path that starts at the root
or climbs above it; `resolve` reads a path as seen from the folder of another one.
-/

namespace XmlTemplate.Path

/-- Segments of a path are separated by slashes of either kind. -/
def isSeparator (c : Char) : Bool := c == '/' || c == '\\'

/-- Segments as written, empty ones included. -/
def segments (path : String) : List (List Char) :=
  Text.splitAt isSeparator path.toList

/-- A segment that stands for the folder itself. -/
def isIdle (segment : List Char) : Bool := segment == [] || segment == ['.']

/-- A segment that stands for the folder above. -/
def isClimb (segment : List Char) : Bool := segment == ['.', '.']

/-- Follow segments from a place given by its segments, innermost first. Climbing at the root
stays there. -/
def follow (place : List (List Char)) : List (List Char) → List (List Char)
  | [] => place
  | segment :: rest =>
    if isIdle segment then follow place rest
    else if isClimb segment then follow place.tail rest
    else follow (segment :: place) rest

/-- Follow segments, none if one of them climbs above the root. -/
def follow? (place : List (List Char)) : List (List Char) → Option (List (List Char))
  | [] => some place
  | segment :: rest =>
    if isIdle segment then follow? place rest
    else if isClimb segment then
      match place with
      | [] => none
      | _ :: outer => follow? outer rest
    else follow? (segment :: place) rest

theorem follow_eq_of_follow? {place path result : List (List Char)}
    (h : follow? place path = some result) : follow place path = result := by
  fun_induction follow? place path with
  | case1 place => simpa [follow] using h
  | case2 place segment rest hi ih => simp [follow, hi, ih h]
  | case3 segment rest hi hc => cases h
  | case4 segment rest hi hc top outer ih => simp [follow, hi, hc, ih h]
  | case5 place segment rest hi hc ih => simp [follow, hi, hc, ih h]

/-- Join segments, innermost first, into a path. -/
def join (place : List (List Char)) : String :=
  String.ofList (List.intercalate ['/'] place.reverse)

/-- The path without empty, `.` and `..` segments. -/
def normalize (path : String) : String :=
  join (follow [] (segments path))

/-- The path starts with a separator. -/
def isRooted (path : String) : Bool :=
  match path.toList with
  | [] => false
  | c :: _ => isSeparator c

/-- The normalized path, if it stays below its root. -/
def confine? (path : String) : Option String :=
  if isRooted path then none else (follow? [] (segments path)).map join

/-- The path up to its last slash; empty when it has none. -/
def folder (path : String) : List Char :=
  match Text.cutAtLast? (· == '/') path.toList with
  | some (before, _) => before
  | none => []

/-- The normalized path that `relative` names in the template at `base`. A path that starts with
a slash is read from the root. -/
def resolve (base relative : String) : String :=
  match relative.toList with
  | '/' :: _ => normalize relative
  | _ =>
    match folder base with
    | [] => normalize relative
    | dir => normalize (String.ofList (dir ++ '/' :: relative.toList))

/-- The last component of a path as files are named: separators at the end and `.` components
other than the first are not counted, and `..` is no name. -/
def fileName? (path : String) : Option (List Char) :=
  let pieces := Text.splitAt (· == '/') path.toList
  match (pieces.filter fun piece => piece != [] && piece != ['.']).getLast? with
  | some name => if isClimb name then none else some name
  | none => none

/-- The part of the file name after its last point, unless that point comes first. -/
def extension? (path : String) : Option String :=
  (fileName? path).bind fun name =>
    match Text.cutAtLast? (· == '.') name with
    | some ([], _) => none
    | some (_, extension) => some (String.ofList extension)
    | none => none

/-- A path starts at the root of the file system. -/
def isAbsolute (path : String) : Bool :=
  match path.toList with
  | '/' :: _ => true
  | _ => false

/-- The path of `inner` as seen from a folder. An absolute path stays as it is. -/
def within (folder inner : String) : String :=
  if isAbsolute inner || folder == "" then inner
  else if folder.toList.getLast? == some '/' then folder ++ inner
  else folder ++ "/" ++ inner

/-- Drop the segments of a folder in front of a path. Idle segments do not count. -/
def dropSegments : (folder path : List (List Char)) → Option (List (List Char))
  | [], path => some (path.dropWhile isIdle)
  | segment :: folder, path =>
    match path.dropWhile isIdle with
    | [] => none
    | next :: rest => if next = segment then dropSegments folder rest else none

/-- A path that starts with the folder itself, as in `./a`. -/
def startsHere (path : String) : Bool :=
  (Text.splitAt (· == '/') path.toList).head? == some ['.']

/-- A path as seen from a folder that it goes through as written. Backslashes become slashes. -/
def from? (folder path : String) : Option String :=
  if isAbsolute folder == isAbsolute path && startsHere folder == startsHere path then
    let outer := (Text.splitAt (· == '/') folder.toList).filter fun s => !isIdle s
    (dropSegments outer (Text.splitAt (· == '/') path.toList)).map fun rest =>
      String.ofList ((List.intercalate ['/'] rest).map fun c => if c = '\\' then '/' else c)
  else none

end XmlTemplate.Path
