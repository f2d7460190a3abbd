import FlowPack.Text.Base64
import FlowPack.Yaml.Scalar.Number
import FlowPack.Yaml.Scalar.Timestamp

namespace FlowPack.Yaml

abbrev Tag := Text

namespace Tag

def str : Tag := .ofString "!!str"
def bool : Tag := .ofString "!!bool"
def int : Tag := .ofString "!!int"
def float : Tag := .ofString "!!float"
def null : Tag := .ofString "!!null"
def timestamp : Tag := .ofString "!!timestamp"
def binary : Tag := .ofString "!!binary"
def merge : Tag := .ofString "!!merge"
def seq : Tag := .ofString "!!seq"
def map : Tag := .ofString "!!map"

/-- What every tag of the standard types begins with in its long form. -/
def standardStem : Text := .ofString "tag:yaml.org,2002:"

def short (t : Text) : Tag :=
  if standardStem.isPrefixOf t then .ofString "!!" ++ t.drop standardStem.length else t

end Tag

inductive Scalar where
  | null
  | bool (b : Bool)
  | int (n : Int)
  | float (x : Double)
  | timestamp
  | str (t : Text)
  | binary (t : Text)
  deriving DecidableEq, Repr

namespace Scalar

def tag : Scalar → Tag
  | null => .null
  | bool _ => .bool
  | int _ => .int
  | float _ => .float
  | timestamp => .timestamp
  | str _ => .str
  | binary _ => .binary

def word? (s : String) : Option Scalar :=
  if s ∈ ["true", "True", "TRUE"] then some (bool true)
  else if s ∈ ["false", "False", "FALSE"] then some (bool false)
  else if s ∈ ["", "~", "null", "Null", "NULL"] then some null
  else if s ∈ [".nan", ".NaN", ".NAN"] then some (float .nan)
  else if s ∈ [".inf", ".Inf", ".INF", "+.inf", "+.Inf", "+.INF"] then
    some (float (.infinite false))
  else if s ∈ ["-.inf", "-.Inf", "-.INF"] then some (float (.infinite true))
  else none

def number? (cs : List Char) : Option Scalar :=
  let plain := cs.filter (· != '_')
  match integer? plain with
  | some n => some (int n)
  | none =>
    match (Decimal.parse? plain).bind Double.ofDecimal? with
    | some x => some (float x)
    | none => (signedAfterMark? plain).map int

def fraction? (cs : List Char) : Option Scalar :=
  if separatorsFit false cs then
    ((Decimal.parse? (cs.filter (· != '_'))).bind Double.ofDecimal?).map float
  else none

def ofPlain (timestamps : Bool) (cs : List Char) : Scalar :=
  let found :=
    match word? (String.ofList cs), cs with
    | some s, _ => some s
    | none, c :: _ =>
      if c == '.' then fraction? cs
      else if isDigit c || c == '+' || c == '-' then
        if timestamps && Timestamp.recognises cs then some timestamp else number? cs
      else none
    | none, [] => none
  found.getD (str (cs.map .char))

def basicTags : List Tag := [.bool, .int, .float, .null, .timestamp]

/-- The meaning of a scalar under its tag; nothing if they contradict each other. -/
def read? (t : Tag) (cs : List Char) : Option Scalar :=
  if t = .binary then
    (Base64.decode? cs).map fun data => binary (Text.ofBytes data)
  else if t ∉ basicTags then some (str (cs.map .char))
  else
    let s := ofPlain (t = .timestamp) cs
    if s.tag = t then some s
    else
      match s with
      | int n => if t = .float ∧ n ≤ maxInt then (Double.ofInt? n).map float else none
      | _ => none

end Scalar

end FlowPack.Yaml
