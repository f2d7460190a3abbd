namespace FlowPack.Numeral

def digitChar (upper : Bool) (d : Nat) : Char :=
  if d < 10 then Char.ofNat (48 + d)
  else if upper then Char.ofNat (55 + d) else Char.ofNat (87 + d)

def digits (base : Nat) (upper : Bool) (n : Nat) : List Char :=
  if _ : base < 2 ∨ n < base then [digitChar upper n]
  else digits base upper (n / base) ++ [digitChar upper (n % base)]
termination_by n
decreasing_by
  have : 2 ≤ base ∧ base ≤ n := by omega
  exact Nat.div_lt_self (by omega) (by omega)

def zeroFill (width : Nat) (ds : List Char) : List Char :=
  List.replicate (width - ds.length) '0' ++ ds

def hex (width : Nat) (n : Nat) : String := String.ofList (zeroFill width (digits 16 true n))

def hexLower (width : Nat) (n : Nat) : String := String.ofList (zeroFill width (digits 16 false n))

def hexInt (width : Nat) (n : Int) : String :=
  if n < 0 then "-" ++ hex (width - 1) n.natAbs else hex width n.natAbs

def address (w : UInt32) : String := "0x" ++ hex 8 w.toNat

end FlowPack.Numeral
