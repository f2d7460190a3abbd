import FlowPack.Command.Arguments

namespace FlowPack

inductive Command where
  | root
  | convert
  | unpack
  | inspect
  | config
  | showConfig
  | initConfig
  | version
  | help
  | completion
  deriving DecidableEq, Repr

namespace Command

def usage : Command → String
  | root => "deckompiler"
  | convert => "btks IN OUT [TEMPO...]"
  | unpack => "unpack C00 OUTDIR"
  | inspect => "inspect FILE"
  | config => "config sub-command"
  | showConfig => "show"
  | initConfig => "init PATH"
  | version => "version"
  | help => "help [command]"
  | completion => "completion"

def name : Command → String
  | root => "deckompiler"
  | convert => "btks"
  | unpack => "unpack"
  | inspect => "inspect"
  | config => "config"
  | showConfig => "show"
  | initConfig => "init"
  | version => "version"
  | help => "help"
  | completion => "completion"

def summary : Command → String
  | root => "convert tickflow binaries to BTKS and inspect C00 archives"
  | convert => "convert a compiled tickflow .bin into a BTKS container"
  | unpack => "list the patched game, gate and tempo records of a C00 archive"
  | inspect => "show the sections and pointer table of a BTKS container"
  | config => "sub-commands for the configuration file"
  | showConfig => "print the effective configuration"
  | initConfig => "write the effective configuration to PATH"
  | version => "get deckompiler version info"
  | help => "Help about any command"
  | completion => "Generate the autocompletion script for the specified shell"

def description : Command → String
  | convert => "convert a compiled tickflow .bin into a BTKS container. Tempo files are " ++
      "accepted for compatibility but not embedded yet."
  | help => "Help provides help for any command in the application.\n" ++
      "Simply type deckompiler help [path to command] for full details."
  | c => c.summary

def children : Command → List Command
  | root => [convert, unpack, inspect, config, version, help, completion]
  | config => [showConfig, initConfig]
  | _ => []

def parent? : Command → Option Command
  | root => none
  | showConfig => some config
  | initConfig => some config
  | _ => some root

def runs : Command → Bool
  | root => false
  | config => false
  | completion => false
  | _ => true

def path : Command → String
  | root => root.name
  | showConfig => s!"{root.name} {config.name} {showConfig.name}"
  | initConfig => s!"{root.name} {config.name} {initConfig.name}"
  | c => s!"{root.name} {c.name}"

def sharedFlags : List Flag := [.config, .debug, .format]

def ownFlags : Command → List Flag
  | unpack => [.base, .names, .variant]
  | _ => []

/-- The flags that are known while the command is being looked for. -/
def searchFlags (c : Command) : List Flag := c.ownFlags ++ sharedFlags

def flags (c : Command) : List Flag := .help :: c.searchFlags

/-- The sub-command a word stands for: the one of that name, or the only one whose name starts
with it. -/
def child? (c : Command) (word : String) : Option Command :=
  match c.children.find? fun d => d.name = word with
  | some d => some d
  | none =>
    match c.children.filter fun d => word.toList.isPrefixOf d.name.toList with
    | [d] => some d
    | _ => none

/-- Follow the words of a command line down the tree. Each step takes one argument away. -/
def descend : Nat → Command → List String → Command × List String
  | 0, c, args => (c, args)
  | steps + 1, c, args =>
    match (words c.searchFlags args).head? with
    | none => (c, args)
    | some word =>
      match c.child? word with
      | none => (c, args)
      | some d => descend steps d (args.erase word)

end Command

end FlowPack
