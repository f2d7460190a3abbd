import FlowPack.Bytes

namespace FlowPack.Digest

def prime1 : UInt64 := 0x9E3779B185EBCA87
def prime2 : UInt64 := 0xC2B2AE3D27D4EB4F
def prime3 : UInt64 := 0x165667B19E3779F9
def prime4 : UInt64 := 0x85EBCA77C2B2AE63
def prime5 : UInt64 := 0x27D4EB2F165667C5

def rotate (x : UInt64) (n : UInt64) : UInt64 := (x <<< n) ||| (x >>> (64 - n))

def round (acc input : UInt64) : UInt64 := rotate (acc + input * prime2) 31 * prime1

def little (bs : Bytes) : UInt64 := bs.foldr (fun b acc => acc <<< 8 ||| b.toUInt64) 0

structure Lanes where
  a : UInt64
  b : UInt64
  c : UInt64
  d : UInt64

def Lanes.start : Lanes := ⟨prime1 + prime2, prime2, 0, 0 - prime1⟩

def stripes (l : Lanes) (data : Bytes) : Lanes × Bytes :=
  if data.length < 32 then (l, data)
  else
    let part (i : Nat) := little ((data.drop (8 * i)).take 8)
    stripes ⟨round l.a (part 0), round l.b (part 1), round l.c (part 2), round l.d (part 3)⟩
      (data.drop 32)
termination_by data.length
decreasing_by
  simp only [List.length_drop]
  omega

def mergeLane (h v : UInt64) : UInt64 := (h ^^^ round 0 v) * prime1 + prime4

def Lanes.merge (l : Lanes) : UInt64 :=
  let h := rotate l.a 1 + rotate l.b 7 + rotate l.c 12 + rotate l.d 18
  mergeLane (mergeLane (mergeLane (mergeLane h l.a) l.b) l.c) l.d

def tail (h : UInt64) : Bytes → UInt64
  | b0 :: b1 :: b2 :: b3 :: b4 :: b5 :: b6 :: b7 :: rest =>
    let lane := little [b0, b1, b2, b3, b4, b5, b6, b7]
    tail (rotate (h ^^^ round 0 lane) 27 * prime1 + prime4) rest
  | b0 :: b1 :: b2 :: b3 :: rest =>
    tail (rotate (h ^^^ (little [b0, b1, b2, b3] * prime1)) 23 * prime2 + prime3) rest
  | b :: rest => tail (rotate (h ^^^ (b.toUInt64 * prime5)) 11 * prime1) rest
  | [] => h

def finish (h : UInt64) : UInt64 :=
  let h := (h ^^^ (h >>> 33)) * prime2
  let h := (h ^^^ (h >>> 29)) * prime3
  h ^^^ (h >>> 32)

def xxHash64 (data : Bytes) : UInt64 :=
  let size := UInt64.ofNat data.length
  if data.length < 32 then finish (tail (prime5 + size) data)
  else
    let (l, rest) := stripes .start data
    finish (tail (l.merge + size) rest)

end FlowPack.Digest
