import FlowPack.Archive.Labels
import FlowPack.Archive.Scan
import FlowPack.Json.Printer

namespace FlowPack.Archive

structure NamedCandidate where
  candidate : Candidate
  name : Text
  file : Text
  deriving DecidableEq, Repr

namespace Candidate

def isGate (c : Candidate) : Bool := c.table = .gate

def named (labels : Option Labels) (c : Candidate) : NamedCandidate where
  candidate := c
  name := Labels.name labels c.isGate c.index
  file := Labels.fileName labels c.isGate c.index

end Candidate

structure Listing where
  archive : String
  outdir : String
  base : UInt32
  games : List NamedCandidate
  tempos : List TempoCandidate
  deriving DecidableEq, Repr

namespace Listing

def ofReport (archive outdir : String) (labels : Option Labels) (r : Report) : Listing where
  archive := archive
  outdir := outdir
  base := r.base
  games := r.games.map (·.named labels)
  tempos := r.tempos

def gameJson (g : NamedCandidate) : Json :=
  .obj [("table", .str g.candidate.table.name), ("index", .nat g.candidate.index),
    ("tagged_index", .nat g.candidate.taggedIndex), ("name", .string g.name),
    ("file", .string g.file), ("start", .nat g.candidate.start.toNat),
    ("assets", .nat g.candidate.assets.toNat)]

def tempoJson (t : TempoCandidate) : Json :=
  .obj [("index", .nat t.index), ("id1", .nat t.id1.toNat), ("id2", .nat t.id2.toNat),
    ("position", .nat t.position.toNat), ("padding", .nat t.padding.toNat)]

def toJson (l : Listing) : Json :=
  .obj [("archive", .str l.archive), ("outdir", .str l.outdir), ("base", .nat l.base.toNat),
    ("games", .array (l.games.map gameJson)), ("tempos", .array (l.tempos.map tempoJson))]

def document (l : Listing) : Bytes := utf8 (l.toJson.render Json.indented 0 ++ "\n")

end Listing

end FlowPack.Archive
