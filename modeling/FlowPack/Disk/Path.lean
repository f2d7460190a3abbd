namespace FlowPack.Path

abbrev Name := List Char

def pieces : List Char → List Name
  | [] => [[]]
  | c :: cs =>
    if c = '/' then [] :: pieces cs
    else
      match pieces cs with
      | [] => [[c]]
      | p :: ps => (c :: p) :: ps

def glue : List Name → List Char
  | [] => []
  | [p] => p
  | p :: ps => p ++ '/' :: glue ps

def isRooted : List Char → Bool
  | '/' :: _ => true
  | _ => false

def pushPiece (rooted : Bool) (stack : List Name) (p : Name) : List Name :=
  if p = [] ∨ p = ['.'] then stack
  else if p = ['.', '.'] then
    match stack with
    | [] => if rooted then [] else [p]
    | top :: rest => if top = ['.', '.'] then p :: top :: rest else rest
  else p :: stack

def cleanPieces (path : List Char) : List Name :=
  ((pieces path).foldl (pushPiece (isRooted path)) []).reverse

/-- The shortest path that means the same. -/
def clean (path : List Char) : List Char :=
  match isRooted path, cleanPieces path with
  | true, ps => '/' :: glue ps
  | false, [] => ['.']
  | false, ps => glue ps

def dir (path : List Char) : List Char :=
  clean (path.reverse.dropWhile (· ≠ '/')).reverse

def base (path : List Char) : List Char :=
  if path = [] then ['.']
  else
    match (path.reverse.dropWhile (· = '/')).takeWhile (· ≠ '/') with
    | [] => ['/']
    | name => name.reverse

/-- Join the non-empty parts with slashes and clean the result. -/
def join (parts : List (List Char)) : List Char :=
  match parts.filter (· ≠ []) with
  | [] => []
  | ps => clean (glue ps)

/-- The file that is written before it is moved to its path: a hidden sibling. -/
def temp (path : List Char) : List Char :=
  join [dir path, '.' :: base path ++ ".tmp".toList]

def tempOf (path : String) : String := String.ofList (temp path.toList)

def inside (directory name : String) : String :=
  String.ofList (join [directory.toList, name.toList])

end FlowPack.Path
