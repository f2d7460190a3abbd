import FlowPack.Container.Basic

namespace FlowPack

/-- What a writer answers: how many bytes it took, and the fault it met. -/
structure Reply where
  taken : Nat
  fault : Option String
  deriving DecidableEq, Repr

/-- A place to write to, as a transition of its state. -/
abbrev Writer (σ : Type) := Bytes → σ → Reply × σ

inductive WriteError where
  | fault (text : String)
  | short
  | encoding (e : Container.EncodeError)
  deriving DecidableEq, Repr

def WriteError.message : WriteError → String
  | fault text => text
  | short => "short write"
  | encoding e => e.message

structure Written where
  count : Nat
  error : Option WriteError
  deriving DecidableEq, Repr

def writeOne {σ : Type} (w : Writer σ) (piece : Bytes) (s : σ) : Written × σ :=
  let (r, s) := w piece s
  let error :=
    match r.fault with
    | some text => some (WriteError.fault text)
    | none => if r.taken = piece.length then none else some .short
  (⟨r.taken, error⟩, s)

def writePieces {σ : Type} (w : Writer σ) : List Bytes → σ → Written × σ
  | [], s => (⟨0, none⟩, s)
  | piece :: rest, s =>
    match writeOne w piece s with
    | (⟨n, some e⟩, s) => (⟨n, some e⟩, s)
    | (⟨n, none⟩, s) =>
      let (later, s) := writePieces w rest s
      (⟨n + later.count, later.error⟩, s)

def Container.Section.writeTo {σ : Type} (sec : Container.Section) (w : Writer σ) (s : σ) :
    Written × σ :=
  match sec.parts? with
  | none => (⟨0, some (.encoding .temposUnsupported)⟩, s)
  | some (lead, body) => writePieces w [lead, body] s

def Container.writeTo {σ : Type} (c : Container) (w : Writer σ) (s : σ) : Written × σ :=
  match c.encode with
  | .error e => (⟨0, some (.encoding e)⟩, s)
  | .ok data => writeOne w data s

/-- A writer with room for a fixed number of bytes. A piece that does not fit is cut; the cut
is reported unless the writer is silent. -/
def Writer.limited (limit : Nat) (silent : Bool) : Writer Bytes := fun piece stored =>
  let room := limit - stored.length
  if piece.length ≤ room then (⟨piece.length, none⟩, stored ++ piece)
  else (⟨room, if silent then none else some "writer full"⟩, stored ++ piece.take room)

end FlowPack
