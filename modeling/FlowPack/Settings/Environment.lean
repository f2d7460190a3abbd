import FlowPack.Bytes

namespace FlowPack

abbrev Environment := List (Bytes × Bytes)

namespace Environment

def dollar : UInt8 := 0x24
def openBrace : UInt8 := 0x7B
def closeBrace : UInt8 := 0x7D

def get (env : Environment) (name : Bytes) : Bytes := (env.lookup name).getD []

def isSign (b : UInt8) : Bool :=
  "*#$@!?-0123456789".toList.any fun c => c.toNat == b.toNat

def isNameByte (b : UInt8) : Bool :=
  b == 0x5F || (0x30 ≤ b && b ≤ 0x39) || (0x61 ≤ b && b ≤ 0x7A) || (0x41 ≤ b && b ≤ 0x5A)

/-- What follows a dollar sign: a name, nothing that could be one, or a faulty brace; with the
number of bytes it takes. -/
inductive Reference where
  | name (n : Bytes) (length : Nat)
  | none
  | faulty (length : Nat)
  deriving DecidableEq, Repr

def reference : Bytes → Reference
  | [] => .none
  | b :: rest =>
    if b == openBrace then
      let name := rest.takeWhile (· != closeBrace)
      if name.length == rest.length then .faulty 1
      else if name.isEmpty then .faulty 2
      else .name name (name.length + 2)
    else if isSign b then .name [b] 1
    else
      match (b :: rest).takeWhile isNameByte with
      | [] => .none
      | name => .name name name.length

/-- Replace all references after the first `skip` bytes, which are dropped. -/
def expandFrom (env : Environment) : Nat → Bytes → Bytes
  | _, [] => []
  | skip + 1, _ :: rest => expandFrom env skip rest
  | 0, b :: rest =>
    if b == dollar then
      match reference rest with
      | .name n length => env.get n ++ expandFrom env length rest
      | .none => b :: expandFrom env 0 rest
      | .faulty length => expandFrom env length rest
    else b :: expandFrom env 0 rest

/-- Replace all references. A faulty one disappears, a dollar sign without a name stays. -/
def expand (env : Environment) (data : Bytes) : Bytes := expandFrom env 0 data

def namesFrom : Nat → Bytes → List Bytes
  | _, [] => []
  | skip + 1, _ :: rest => namesFrom skip rest
  | 0, b :: rest =>
    if b == dollar then
      match reference rest with
      | .name n length => n :: namesFrom length rest
      | .none => namesFrom 0 rest
      | .faulty length => namesFrom length rest
    else namesFrom 0 rest

def names (data : Bytes) : List Bytes := namesFrom 0 data

end Environment

end FlowPack
