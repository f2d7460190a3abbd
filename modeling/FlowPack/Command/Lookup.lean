import FlowPack.Command.Tree

namespace FlowPack.Command

/-- One row of the table of edit distances. `row` holds the distances of the items read so far
to the beginnings of `target`; `left` is the entry to the left of the next one. -/
def nextEntries (item : UInt8) (left : Nat) : Bytes → List Nat → List Nat
  | b :: target, corner :: above :: row =>
    let entry := min (min (above + 1) (left + 1)) (corner + if b = item then 0 else 1)
    entry :: nextEntries item entry target (above :: row)
  | _, _ => []

def nextRow (target : Bytes) (row : List Nat) (item : UInt8) : List Nat :=
  let first := row.headD 0 + 1
  first :: nextEntries item first target row

def editDistance (source target : Bytes) : Nat :=
  ((source.foldl (nextRow target) (List.range (target.length + 1))).getLast?).getD 0

def lowered (s : String) : String := String.ofList (s.toList.map Text.lower)

/-- Whether a command is close enough to a word to be suggested for it. -/
def isLike (word : String) (c : Command) : Bool :=
  editDistance (utf8 (lowered word)) (utf8 c.name) ≤ 2 ||
    (lowered word).toList.isPrefixOf c.name.toList

def suggestions (word : String) : List String :=
  ((root.children.filter fun c => c ≠ help && isLike word c).map name)

def unknownMessage (word : String) : String :=
  let similar := match suggestions word with
    | [] => ""
    | names => "\n\nDid you mean this?\n" ++ String.join (names.map fun n => s!"\t{n}\n")
  "unknown command " ++ (Text.ofString word).quoted ++ s!" for \"{root.name}\"" ++ similar

/-- The command a command line asks for and the arguments without its words, or the word that
stands for no command. -/
def find (args : List String) : Except String (Command × List String) :=
  match descend args.length root args with
  | (root, rest) =>
    match words root.searchFlags rest with
    | [] => .ok (root, rest)
    | word :: _ => .error word
  | found => .ok found

end FlowPack.Command
