import FlowPack.Json.Printer
import FlowPack.Settings.Basic
import FlowPack.Yaml.Printer

namespace FlowPack.Settings

def keyLine (width : Nat) (key : String) : List Char :=
  Yaml.Printer.margin width ++ key.toList ++ [':', '\n']

/-- A key and a text. Continuation lines stand one step deeper than the key. -/
def textLine (width : Nat) (key : String) (t : Text) : List Char :=
  Yaml.Printer.margin width ++ key.toList ++ [':', ' '] ++
    Yaml.Printer.text (width + Yaml.Printer.step) t

def tagLines (width : Nat) (key : String) (tags : List Int) : List Char :=
  if tags = [] then Yaml.Printer.margin width ++ key.toList ++ ": []\n".toList
  else
    keyLine width key ++ tags.flatMap fun tag =>
      Yaml.Printer.margin (width + Yaml.Printer.step) ++ s!"- {tag}\n".toList

def optionalLine (width : Nat) (key : String) (t : Text) : List Char :=
  if t = [] then [] else textLine width key t

def render (s : Settings) : List Char :=
  let inner := Yaml.Printer.step
  "version: ".toList ++ (toString s.version).toList ++ ['\n'] ++
    textLine 0 "log_level" s.logLevel ++
    keyLine 0 "annotation" ++
    tagLines inner "pointer_tags" s.pointers ++
    tagLines inner "string_tags" s.strings ++
    keyLine 0 "output" ++
    textLine inner "sync" (.ofString s.sync.name) ++
    keyLine 0 "archive" ++
    textLine inner "variant" s.variant ++
    optionalLine inner "base_offset" s.baseOffset ++
    optionalLine inner "names_file" s.namesFile

def document (s : Settings) : Bytes := Text.bytes (s.render.map .char)

def tagsJson : Option (List Int) → Json
  | none => .null
  | some tags => .array (tags.map .int)

def optionalJson (key : String) (t : Text) : List (String × Json) :=
  if t = [] then [] else [(key, .string t)]

def toJson (s : Settings) : Json :=
  .obj [("version", .int s.version),
    ("log_level", .string s.logLevel),
    ("annotation", .obj [("pointer_tags", tagsJson s.pointerTags),
      ("string_tags", tagsJson s.stringTags)]),
    ("output", .obj [("sync", .str s.sync.name)]),
    ("archive", .obj ([("variant", .string s.variant)] ++
      optionalJson "base_offset" s.baseOffset ++ optionalJson "names_file" s.namesFile))]

end FlowPack.Settings
