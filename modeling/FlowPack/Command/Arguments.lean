import FlowPack.Command.Flag

namespace FlowPack.Command

inductive ArgumentError where
  | malformed (argument : String)
  | unknown (name : String)
  | needsValue (argument : String)
  | unknownLetter (letters : String)
  | letterNeedsValue (letters : String)
  | refused (value : String) (flag : Flag) (e : ValueError)
  deriving DecidableEq, Repr

namespace ArgumentError

def quotedFront (s : String) : String :=
  let c := match utf8 s with
    | b :: _ => Char.ofNat b.toNat
    | [] => ' '
  let inner := if c == Char.ofNat 39 then "\\'" else if c == '"' then "\"" else Text.quotedChar c
  "'" ++ inner ++ "'"

def message : ArgumentError → String
  | malformed argument => s!"bad flag syntax: {argument}"
  | unknown name => s!"unknown flag: --{name}"
  | needsValue argument => s!"flag needs an argument: {argument}"
  | unknownLetter letters => s!"unknown shorthand flag: {quotedFront letters} in -{letters}"
  | letterNeedsValue letters => s!"flag needs an argument: {quotedFront letters} in -{letters}"
  | refused value flag e =>
    "invalid argument " ++ (Text.ofString value).quoted ++ s!" for \"{flag.title}\" flag: " ++
      e.message

end ArgumentError

def setFlag (o : Options) (f : Flag) (value : String) : Except ArgumentError Options :=
  match o.set f value with
  | .error e => .error (.refused value f e)
  | .ok o => .ok o

/-- Read the letters after a single dash. `next` is the argument behind them; the result says
whether it was taken. A rest that starts with `test.` is passed over. -/
def readLetters (known : List Flag) (next : Option String) :
    Options → List Char → Except ArgumentError (Options × Bool)
  | o, [] => .ok (o, false)
  | o, c :: rest =>
    if "test.".toList.isPrefixOf (c :: rest) then .ok (o, false)
    else
      match known.find? fun f => f.letter? = some c with
      | none => .error (.unknownLetter (String.ofList (c :: rest)))
      | some f =>
        match rest with
        | '=' :: d :: more => do return (← setFlag o f (String.ofList (d :: more)), false)
        | _ =>
          if f.isSwitch then
            match setFlag o f "true" with
            | .error e => .error e
            | .ok o => readLetters known next o rest
          else
            match rest, next with
            | _ :: _, _ => do return (← setFlag o f (String.ofList rest), false)
            | [], some value => do return (← setFlag o f value, true)
            | [], none => .error (.letterNeedsValue (String.ofList (c :: rest)))

def readLong (known : List Flag) (next : Option String) (o : Options) (body : List Char) :
    Except ArgumentError (Options × Bool) :=
  let argument := String.ofList ('-' :: '-' :: body)
  if body.head? = some '-' ∨ body.head? = some '=' then .error (.malformed argument)
  else
    let name := String.ofList (body.takeWhile (· ≠ '='))
    match known.find? fun f => f.name = name with
    | none => .error (.unknown name)
    | some f =>
      match body.dropWhile (· ≠ '='), next with
      | _ :: value, _ => do return (← setFlag o f (String.ofList value), false)
      | [], next =>
        if f.isSwitch then do return (← setFlag o f "true", false)
        else
          match next with
          | some value => do return (← setFlag o f value, true)
          | none => .error (.needsValue argument)

def readFlag (known : List Flag) (next : Option String) (o : Options) :
    List Char → Except ArgumentError (Options × Bool)
  | '-' :: body => readLong known next o body
  | letters => readLetters known next o letters

def readArguments (known : List Flag) :
    Options → List String → Except ArgumentError (Options × List String)
  | o, [] => .ok (o, [])
  | o, s :: rest =>
    match s.toList with
    | '-' :: c :: cs =>
      if s = "--" then .ok (o, rest)
      else
        match readFlag known rest.head? o (c :: cs) with
        | .error e => .error e
        | .ok (o, false) => readArguments known o rest
        | .ok (o, true) =>
          match rest with
          | [] => .ok (o, [])
          | _ :: after => readArguments known o after
    | _ =>
      match readArguments known o rest with
      | .error e => .error e
      | .ok (o, more) => .ok (o, s :: more)

/-- Whether an argument looks like a flag that takes the next one as its value. Flags that are
not known count as such. -/
def takesNext (known : List Flag) (s : String) : Bool :=
  match s.toList with
  | '-' :: '-' :: name =>
    !name.contains '=' && !known.any fun f => f.isSwitch && f.name = String.ofList name
  | ['-', c] =>
    c.toNat < 0x80 && c != '=' && !known.any fun f => f.isSwitch && f.letter? = some c
  | _ => false

def words (known : List Flag) : List String → List String
  | [] => []
  | s :: rest =>
    if s = "--" then []
    else if takesNext known s then
      match rest with
      | [] => []
      | _ :: after => if after.isEmpty then [] else words known after
    else if s = "" ∨ s.toList.head? = some '-' then words known rest
    else s :: words known rest

end FlowPack.Command
