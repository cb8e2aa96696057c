import StackMachine.Text.Integer
import StackMachine.Text.Quoted
/-! Command-line flags. They end at the first argument that is none, or behind
two dashes. -/
namespace StackMachine.Command

structure Options where
  verbose : Bool := false
  debug : Bool := false
  trace : Bool := false
  disassemble : Bool := false
  docs : Bool := false
  dump : String := ""
  inline : String := ""
  /-- Zero or less leaves the manifest's capacity. -/
  capacity : Int := 0
  paths : List String := []
  deriving DecidableEq, Repr

inductive FlagError where
  | help
  | badSyntax (arg : String)
  | unknown (name : String)
  | noArgument (name : String)
  | badBoolean (value name : String)
  | badInteger (value name : String) (why : Text.IntegerError)
  deriving DecidableEq, Repr

def FlagError.line : FlagError → String
  | .help => ""
  | .badSyntax arg => "bad flag syntax: " ++ arg ++ "\n"
  | .unknown name => "flag provided but not defined: -" ++ name ++ "\n"
  | .noArgument name => "flag needs an argument: -" ++ name ++ "\n"
  | .badBoolean value name =>
    "invalid boolean value " ++ Text.quote value ++ " for -" ++ name ++ ": parse error\n"
  | .badInteger value name why =>
    let reason := match why with
      | .badSyntax => "parse error"
      | .outOfRange => "value out of range"
    "invalid value " ++ Text.quote value ++ " for flag -" ++ name ++ ": " ++ reason ++ "\n"

def usage : String :=
  "Usage: xtella [options] [file]\n\n" ++
  "Runs a bytecode buffer written as whitespace-separated integers.\n" ++
  "Reads from stdin when neither a file nor -e is given.\n\n" ++
  "Options:\n" ++
  "  -capacity int\n    \tOperand stack capacity (overrides xtella.toml)\n" ++
  "  -d\tDisassemble the program instead of running it\n" ++
  "  -docs\n    \tPrint the opcode catalog as YAML and exit\n" ++
  "  -dump string\n    \tWrite a CBOR snapshot of the engine to this path after the run\n" ++
  "  -e string\n    \tProgram text given inline, e.g. '1 5 1 7 2 0'\n" ++
  "  -trace\n    \tLog every executed instruction (implies -vv)\n" ++
  "  -v\tVerbose output (info logging)\n" ++
  "  -vv\n    \tDebug logging\n" ++
  "\nExamples:\n" ++
  "  xtella -e '1 5 1 7 2 0'        # 5 + 7, then halt\n" ++
  "  xtella -d prog.xbc              # Disassemble prog.xbc\n" ++
  "  xtella -dump fault.cbor prog.xbc # Keep a snapshot of the run\n" ++
  "  xtella -docs                    # Opcode reference\n"

def boolean? (s : String) : Option Bool :=
  if ["1", "t", "T", "true", "TRUE", "True"].contains s then some true
  else if ["0", "f", "F", "false", "FALSE", "False"].contains s then some false
  else none

inductive Flag where
  | switch (set : Bool → Options → Options)
  | text (set : String → Options → Options)
  | number (set : Int → Options → Options)

def flag? (name : String) : Option Flag :=
  match name with
  | "v" => some (.switch fun verbose o => { o with verbose })
  | "vv" => some (.switch fun debug o => { o with debug })
  | "trace" => some (.switch fun trace o => { o with trace })
  | "d" => some (.switch fun disassemble o => { o with disassemble })
  | "docs" => some (.switch fun docs o => { o with docs })
  | "dump" => some (.text fun dump o => { o with dump })
  | "e" => some (.text fun inline o => { o with inline })
  | "capacity" => some (.number fun capacity o => { o with capacity })
  | _ => none

inductive Argument where
  | operand
  | terminator
  | malformed
  | flag (name : String) (value : Option String)
  deriving DecidableEq, Repr

def splitValue (text : List Char) : Argument :=
  let name := text.takeWhile (· != '=')
  match text.dropWhile (· != '=') with
  | [] => .flag (String.ofList name) none
  | _ :: value => .flag (String.ofList name) (some (String.ofList value))

def classifyName (text : List Char) : Argument :=
  match text with
  | [] => .malformed
  | first :: _ => if first = '-' ∨ first = '=' then .malformed else splitValue text

def classify (arg : String) : Argument :=
  match arg.toList with
  | ['-', '-'] => .terminator
  | '-' :: '-' :: name => classifyName name
  | ['-'] => .operand
  | '-' :: name => classifyName name
  | _ => .operand

/-- A switch takes a value only with an equals sign; all other flags need one and
may take the next argument. -/
def parse (o : Options) (args : List String) : Except FlagError Options :=
  match args with
  | [] => .ok o
  | arg :: rest =>
    match classify arg with
    | .operand => .ok { o with paths := arg :: rest }
    | .terminator => .ok { o with paths := rest }
    | .malformed => .error (.badSyntax arg)
    | .flag name value =>
      match flag? name with
      | none => .error (if name = "help" ∨ name = "h" then .help else .unknown name)
      | some (.switch set) =>
        match boolean? (value.getD "true") with
        | some b => parse (set b o) rest
        | none => .error (.badBoolean (value.getD "") name)
      | some (.text set) =>
        match value, rest with
        | some v, rest => parse (set v o) rest
        | none, v :: rest => parse (set v o) rest
        | none, [] => .error (.noArgument name)
      | some (.number set) =>
        match value, rest with
        | some v, rest =>
          match Text.readSigned 64 (Text.utf8 v) with
          | .ok n => parse (set n o) rest
          | .error why => .error (.badInteger v name why)
        | none, v :: rest =>
          match Text.readSigned 64 (Text.utf8 v) with
          | .ok n => parse (set n o) rest
          | .error why => .error (.badInteger v name why)
        | none, [] => .error (.noArgument name)
termination_by args.length

def Options.verbosity (o : Options) : Int :=
  if o.trace || o.debug then 2 else if o.verbose then 1 else 0

end StackMachine.Command
