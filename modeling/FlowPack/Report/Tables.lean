import FlowPack.Archive.Listing
import FlowPack.Container.Inspection
import FlowPack.Conversion.File
import FlowPack.Report.Grid

namespace FlowPack

open Report

def FileSummary.toJson (s : FileSummary) : Json :=
  let file (key name : String) : List (String × Json) :=
    if name = "" then [] else [(key, .str name)]
  .obj (file "input" s.input ++ file "output" s.output ++ [
    ("codec", .str s.codec.name),
    ("index", .nat s.summary.index.toNat),
    ("start", .nat s.summary.start.toNat),
    ("instructions", .nat s.summary.instructions),
    ("string_refs", .nat s.summary.stringRefs),
    ("stream_pointers", .nat s.summary.streamPointers),
    ("dangling_strings", .nat s.summary.dangling),
    ("flow_size", .nat s.summary.flowSize),
    ("string_size", .nat s.summary.stringSize),
    ("size", .nat s.summary.size.toNat),
    ("digest", .nat s.summary.digest.toNat)])

def FileSummary.grid (s : FileSummary) : Grid where
  rows := [[.text "Input", .text s.input], [.text "Output", .text s.output]] ++
    (if s.codec = .none then [] else [[.text "Compression", .text s.codec.name]]) ++
    [[.text "Index", .text (Numeral.address s.summary.index)],
      [.text "Start", .text (Numeral.address s.summary.start)],
      [.text "Instructions", .number s.summary.instructions],
      [.text "String refs", .number s.summary.stringRefs],
      [.text "Stream pointers", .number s.summary.streamPointers]] ++
    (if s.summary.dangling = 0 then []
      else [[.text "Dangling strings", .number s.summary.dangling]]) ++
    [[.text "FLOW bytes", .number s.summary.flowSize],
      [.text "STRD bytes", .number s.summary.stringSize],
      [.text "Size", .number s.summary.size.toNat],
      [.text "Digest", .text (Numeral.hexLower 16 s.summary.digest.toNat)]]
  columns := [⟨.left, .natural⟩, ⟨.left, .natural⟩]

namespace Inspection

def digestText (i : Inspection) : String := Numeral.hexLower 16 i.digest.toNat

def extentJson (e : Container.Extent) : Json :=
  .obj [("magic", .str e.name), ("offset", .nat e.offset.toNat), ("size", .nat e.size.toNat)]

def pointerJson (p : Container.PointerValue) : Json :=
  .obj [("offset", .nat p.offset.toNat), ("kind", .str p.kind.name), ("value", .nat p.value.toNat)]

def optionalArray : List Json → Json
  | [] => .null
  | items => .array items

def toJson (i : Inspection) : Json :=
  .obj [("file", .str i.file), ("size", .nat i.size.toNat), ("version", .nat i.version.toNat),
    ("start", .nat i.start.toNat), ("digest", .str i.digestText),
    ("sections", optionalArray (i.sections.map extentJson)),
    ("pointers", optionalArray (i.pointers.map pointerJson))]

def sectionGrid (i : Inspection) : Grid where
  title := s!"{i.file} ({i.size} bytes, version {i.version}, " ++
    s!"start {Numeral.address i.start}, xxhash {i.digestText})"
  header := ["Section", "Offset", "Size"]
  rows := i.sections.map fun e =>
    [.text e.name, .text (Numeral.address e.offset), .number e.size.toNat]
  columns := [⟨.center, .center⟩, ⟨.right, .center⟩, ⟨.right, .center⟩]

def pointerGrid (i : Inspection) : Grid where
  header := ["Offset", "Kind", "Value"]
  rows := i.pointers.map fun p =>
    [.text (Numeral.address p.offset), .text p.kind.name, .text (Numeral.address p.value)]
  footer := [.text "", .text "Total", .number i.pointers.length]

def grids (i : Inspection) : List Grid :=
  if i.pointers.isEmpty then [i.sectionGrid] else [i.sectionGrid, i.pointerGrid]

end Inspection

namespace Archive.Listing

def gameRow (g : NamedCandidate) : List Cell :=
  [.text g.candidate.table.name, .text ("0x" ++ Numeral.hex 3 g.candidate.taggedIndex),
    .text g.name.shown, .text (Numeral.address g.candidate.start),
    .text (Numeral.address g.candidate.assets)]

def tempoRow (t : TempoCandidate) : List Cell :=
  [.text "tempo", .text ("0x" ++ Numeral.hex 3 t.index),
    .text (Numeral.hex 8 t.id1.toNat ++ "/" ++ Numeral.hex 8 t.id2.toNat),
    .text (Numeral.address t.position), .text ""]

def grid (l : Listing) : Grid where
  title := s!"{l.archive} (base {Numeral.address l.base})"
  header := ["Table", "Index", "Name", "Start", "Assets"]
  rows := l.games.map gameRow ++ l.tempos.map tempoRow
  footer := [.text "", .text "", .text "Total", .number (l.games.length + l.tempos.length),
    .text ""]
  columns := [⟨.center, .center⟩, ⟨.right, .center⟩, ⟨.natural, .center⟩, ⟨.right, .center⟩,
    ⟨.right, .center⟩]

end Archive.Listing

end FlowPack
