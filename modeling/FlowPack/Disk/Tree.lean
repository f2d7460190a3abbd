import FlowPack.Bytes
import FlowPack.Disk.Path

namespace FlowPack

abbrev Location := List String

inductive Disk.Node where
  | file (data : Bytes)
  | dir
  deriving DecidableEq, Repr

structure Disk where
  entries : List (Location × Disk.Node) := []
  deriving DecidableEq, Repr

inductive Cause where
  | notFound
  | notDirectory
  | isDirectory
  | alreadyThere
  deriving DecidableEq, Repr

def Cause.text : Cause → String
  | notFound => "no such file or directory"
  | notDirectory => "not a directory"
  | isDirectory => "is a directory"
  | alreadyThere => "file exists"

inductive FileError where
  | opening (path : String) (cause : Cause)
  | reading (path : String) (cause : Cause)
  | makingDir (path : String) (cause : Cause)
  | renaming (old new : String) (cause : Cause)
  deriving DecidableEq, Repr

namespace FileError

def cause : FileError → Cause
  | .opening _ c => c
  | .reading _ c => c
  | .makingDir _ c => c
  | .renaming _ _ c => c

def message : FileError → String
  | .opening path c => s!"open {path}: {c.text}"
  | .reading path c => s!"read {path}: {c.text}"
  | .makingDir path c => s!"mkdir {path}: {c.text}"
  | .renaming old new c => s!"rename {old} {new}: {c.text}"

end FileError

namespace Disk

/-- Directories that are always there: the root, the working directory and all above it. -/
def isGiven (l : Location) : Bool := l == ["/"] || l.all (· == "..")

def get? (d : Disk) (l : Location) : Option Node :=
  if isGiven l then some .dir else d.entries.lookup l

def erase (d : Disk) (l : Location) : Disk := ⟨d.entries.filter fun e => e.1 ≠ l⟩

def set (d : Disk) (l : Location) (n : Node) : Disk := ⟨(l, n) :: (d.erase l).entries⟩

def above (l : Location) : Location :=
  match l.getLast? with
  | none => [".."]
  | some name => if name = "/" then l else if name = ".." then l ++ [".."] else l.dropLast

def walk (d : Disk) (here : Location) : List String → Except Cause Location
  | [] => .ok here
  | name :: rest =>
    match d.get? here with
    | none => .error .notFound
    | some (.file _) => .error .notDirectory
    | some .dir =>
      if name = ".." then walk d (above here) rest else walk d (here ++ [name]) rest

/-- The names of a path, and whether it has to lead to a directory because of its end. -/
def namesOf (path : String) : List String × Bool :=
  let ps := Path.pieces path.toList
  let names := ps.filter fun p => p ≠ [] ∧ p ≠ ['.']
  let last := ps.getLast?.getD []
  (names.map String.ofList, last = [] ∨ last = ['.'] ∨ last = ['.', '.'])

def startOf (path : String) : Location := if Path.isRooted path.toList then ["/"] else []

/-- The locations that names lead through, as long as all of them are directories. -/
def stepsFrom (here : Location) : List String → List Location
  | [] => []
  | name :: rest =>
    let next := if name = ".." then above here else here ++ [name]
    next :: stepsFrom next rest

def steps (path : String) : List Location := stepsFrom (startOf path) (namesOf path).1

def resolve (d : Disk) (path : String) : Except Cause Location :=
  if path = "" then .error .notFound
  else
    let (names, mustBeDir) := namesOf path
    match d.walk (startOf path) names with
    | .error c => .error c
    | .ok l =>
      match mustBeDir, d.get? l with
      | true, some (.file _) => .error .notDirectory
      | _, _ => .ok l

def find (d : Disk) (path : String) : Except Cause (Location × Node) :=
  match d.resolve path with
  | .error c => .error c
  | .ok l =>
    match d.get? l with
    | none => .error .notFound
    | some n => .ok (l, n)

def content (d : Disk) (path : String) : Except FileError Bytes :=
  match d.find path with
  | .error c => .error (.opening path c)
  | .ok (_, .dir) => .error (.reading path .isDirectory)
  | .ok (_, .file data) => .ok data

def create (d : Disk) (path : String) : Except FileError (Location × Disk) :=
  match d.resolve path with
  | .error c => .error (.opening path c)
  | .ok l =>
    match d.get? l with
    | some .dir => .error (.opening path .isDirectory)
    | some (.file _) => .ok (l, d.set l (.file []))
    | none =>
      if (namesOf path).2 then .error (.opening path .isDirectory)
      else
        match d.get? l.dropLast with
        | none => .error (.opening path .notFound)
        | some (.file _) => .error (.opening path .notDirectory)
        | some .dir => .ok (l, d.set l (.file []))

def append (d : Disk) (l : Location) (data : Bytes) : Disk :=
  match d.get? l with
  | some (.file old) => d.set l (.file (old ++ data))
  | _ => d

def rename (d : Disk) (old new : String) : Except FileError Disk :=
  match d.find new, d.find old with
  | .ok (_, .dir), .ok _ => .error (.renaming old new .alreadyThere)
  | _, .error c => .error (.renaming old new c)
  | _, .ok (l, n) =>
    match d.resolve new with
    | .error c => .error (.renaming old new c)
    | .ok m =>
      match d.get? m.dropLast with
      | none => .error (.renaming old new .notFound)
      | some (.file _) => .error (.renaming old new .notDirectory)
      | some .dir =>
        if (namesOf new).2 then .error (.renaming old new .notDirectory)
        else .ok ((d.erase l).set m n)

def remove (d : Disk) (path : String) : Disk :=
  match d.find path with
  | .ok (l, .file _) => d.erase l
  | _ => d

def makeDir (d : Disk) (path : String) : Except FileError Disk :=
  match d.resolve path with
  | .error c => .error (.makingDir path c)
  | .ok l =>
    match d.get? l, d.get? l.dropLast with
    | some _, _ => .error (.makingDir path .alreadyThere)
    | none, some .dir => .ok (d.set l .dir)
    | none, some (.file _) => .error (.makingDir path .notDirectory)
    | none, none => .error (.makingDir path .notFound)

def parent (path : List Char) : List Char :=
  (((path.reverse.dropWhile (· = '/')).dropWhile (· ≠ '/')).drop 1).reverse

theorem length_parent_lt {path : List Char} (h : path ≠ []) :
    (parent path).length < path.length := by
  have hp : 0 < path.length := List.length_pos_iff.2 h
  have h₁ := (List.dropWhile_sublist (l := path.reverse) (· = '/')).length_le
  have h₂ := (List.dropWhile_sublist
    (l := path.reverse.dropWhile (· = '/')) (· ≠ '/')).length_le
  simp only [parent, List.length_reverse, List.length_drop] at *
  omega

/-- Create a directory and whatever is missing above it. An error comes with the disk as it is
then: directories that could be made stay. -/
def makeDirs (d : Disk) (path : List Char) : Except (FileError × Disk) Disk :=
  let name := String.ofList path
  match d.find name with
  | .ok (_, .dir) => .ok d
  | .ok (_, .file _) => .error (.makingDir name .notDirectory, d)
  | .error _ =>
    let above :=
      if h : parent path ≠ [] then
        have : path ≠ [] := by
          intro hp
          exact h (by rw [hp]; rfl)
        makeDirs d (parent path)
      else .ok d
    match above with
    | .error e => .error e
    | .ok d =>
      match d.makeDir name with
      | .ok d => .ok d
      | .error e =>
        -- A path that ends in a dot leads to a directory that has just been made.
        match d.find name with
        | .ok (_, .dir) => .ok d
        | _ => .error (e, d)
termination_by path.length
decreasing_by exact length_parent_lt this

def listing (d : Disk) : List String :=
  let shown (e : Location × Node) : String :=
    "/".intercalate e.1 ++ if e.2 = .dir then "/" else ""
  (d.entries.map shown).mergeSort (fun a b => !(b < a))

end Disk

end FlowPack
