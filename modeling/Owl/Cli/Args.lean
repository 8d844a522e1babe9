/-
Reading command lines.

Options can stand anywhere among the other arguments.  A long option can be cut
short as long as it stays the only one, and its value can be the next argument or
follow an equals sign; short options can be written together, and the value of
one can follow directly.  What follows a double dash is no option.

`Invocation.ofArgs` says what a command line asks for.  Asking for help or for the
version ends the reading at once; any mistake before that makes it a misuse.
-/
import Owl.Text.Numeral

namespace Owl.Cli

/-- What an option stands for. -/
inductive Setting
  | help
  | version
  | output
  | profile
  | denyWarnings
  | noWarnings
  | json
deriving DecidableEq, Repr

/-- An option. -/
structure Flag where
  names : List String
  setting : Setting
  takesValue : Bool := false
deriving DecidableEq, Repr

/-- Why a command line is read no further. -/
inductive ArgStop
  | help
  | version
  | misuse
deriving DecidableEq, Repr

/-- What is attached to an option in the same argument. -/
inductive Attached
  | nothing
  | assigned (value : List Char)
  | joined (value : List Char)
deriving DecidableEq, Repr

/-- What an argument looks like. -/
inductive Mark
  | plain
  | dashes
  | option (flag : Flag) (attached : Attached)
  | unknownOption
deriving DecidableEq, Repr

/-! ### Options -/

def flagOf? (flags : List Flag) (name : List Char) : Option Flag :=
  flags.find? fun f => f.names.any (·.toList == name)

/-- The characters before and after the first equals sign, if there is one. -/
def splitAssign (cs : List Char) : List Char × Option (List Char) :=
  match cs.dropWhile (· != '=') with
  | [] => (cs, none)
  | _ :: value => (cs.takeWhile (· != '='), some value)

def attachedBy : Option (List Char) → Attached
  | none => .nothing
  | some value => .assigned value

def areDigits (cs : List Char) : Bool := cs.all fun c => (Text.decimalValue? c).isSome

/-- Whether characters are a negative number; a line feed can follow it. -/
def isNegative (cs : List Char) : Bool :=
  let body := if cs.getLast? == some '\n' then cs.dropLast else cs
  match body with
  | '-' :: rest =>
    match rest.dropWhile (· != '.') with
    | [] => !rest.isEmpty && areDigits rest
    | _ :: places => areDigits (rest.takeWhile (· != '.')) && !places.isEmpty && areDigits places
  | _ => false

/-- The options that an argument can stand for by a cut name or by a short name with something
behind it. -/
def readings (flags : List Flag) : List Char → List (Flag × Attached)
  | '-' :: '-' :: rest =>
    let (name, value?) := splitAssign ('-' :: '-' :: rest)
    flags.flatMap fun f =>
      (f.names.filter fun n => name.isPrefixOf n.toList).map fun _ => (f, attachedBy value?)
  | '-' :: c :: rest =>
    (flags.filter fun f => f.names.any (·.toList == ['-', c])).map fun f => (f, .joined rest)
  | _ => []

/-- What an argument looks like that is no known option as it stands. -/
def guess (cs : List Char) : Mark :=
  if isNegative cs || cs.contains ' ' then .plain else .unknownOption

def mark (flags : List Flag) (arg : String) : Except ArgStop Mark :=
  let cs := arg.toList
  match cs with
  | '-' :: _ :: _ =>
    match flagOf? flags cs with
    | some f => .ok (.option f .nothing)
    | none =>
      let (name, value?) := splitAssign cs
      match value?, flagOf? flags name with
      | some value, some f => .ok (.option f (.assigned value))
      | _, _ =>
        match readings flags cs with
        | [] => .ok (guess cs)
        | [(f, attached)] => .ok (.option f attached)
        | _ => .error .misuse
  | _ => .ok .plain

def marks (flags : List Flag) : List String → Except ArgStop (List (String × Mark))
  | [] => .ok []
  | "--" :: args => .ok (("--", .dashes) :: args.map fun arg => (arg, .plain))
  | arg :: args => do
    let first ← mark flags arg
    return (arg, first) :: (← marks flags args)

/-! ### Taking options -/

/-- What was read so far. -/
structure ArgState where
  settings : List (Setting × String) := []
  /-- The argument that is no option. -/
  subject? : Option String := none
  /-- What has no place. -/
  extras : List String := []
  /-- Settings that wait for the next argument, which is the value of the last one. -/
  waiting? : Option (List Setting × Setting) := none
  /-- Whether the last argument was the subject. -/
  afterSubject : Bool := false
deriving DecidableEq, Repr, Inhabited

namespace ArgState

/-- Takes a setting.  Help and version end the reading. -/
def take (s : ArgState) (setting : Setting) (value : String) : Except ArgStop ArgState :=
  match setting with
  | .help => .error .help
  | .version => .error .version
  | _ => .ok { s with settings := s.settings ++ [(setting, value)] }

def takeAll (s : ArgState) (settings : List Setting) : Except ArgStop ArgState :=
  settings.foldlM (fun s setting => s.take setting "") s

def putAside (s : ArgState) (arg : String) : ArgState :=
  { s with extras := s.extras ++ [arg] }

def has (s : ArgState) (setting : Setting) : Bool :=
  s.settings.any (·.1 == setting)

def value? (s : ArgState) (setting : Setting) : Option String :=
  (s.settings.reverse.find? (·.1 == setting)).map Prod.snd

end ArgState

/-- What one argument with options asks for. -/
inductive Request
  /-- Settings without a value, and what is left over of the argument. -/
  | settings (settings : List Setting) (left : Option String)
  /-- Settings without a value, then one with its value. -/
  | valued (settings : List Setting) (last : Setting) (value : String)
  /-- Settings without a value, then one whose value is the next argument. -/
  | needsValue (settings : List Setting) (last : Setting)
deriving DecidableEq, Repr

def Request.after (setting : Setting) : Request → Request
  | .settings others left => .settings (setting :: others) left
  | .valued others last value => .valued (setting :: others) last value
  | .needsValue others last => .needsValue (setting :: others) last

def requestAlone (f : Flag) : Request :=
  if f.takesValue then .needsValue [] f.setting else .settings [f.setting] none

def requestAssigned (f : Flag) (value : List Char) : Except ArgStop Request :=
  if f.takesValue then .ok (.valued [] f.setting (String.ofList value)) else .error .misuse

/-- What a short option asks for together with the characters behind it. -/
def requestJoined (flags : List Flag) (f : Flag) : List Char → Except ArgStop Request
  | [] => requestAssigned f []
  | c :: rest =>
    if f.takesValue then .ok (.valued [] f.setting (String.ofList (c :: rest)))
    else if c == '-' then .error .misuse
    else match flagOf? flags ['-', c] with
    | none => .ok (.settings [f.setting] (some (String.ofList ('-' :: c :: rest))))
    | some next =>
      match rest with
      | [] => .ok ((requestAlone next).after f.setting)
      | '=' :: value => (requestAssigned next value).map (·.after f.setting)
      | _ => (requestJoined flags next rest).map (·.after f.setting)

def request (flags : List Flag) (f : Flag) : Attached → Except ArgStop Request
  | .nothing => .ok (requestAlone f)
  | .assigned value => requestAssigned f value
  | .joined value => requestJoined flags f value

def ArgState.obey (s : ArgState) : Request → Except ArgStop ArgState
  | .settings others left => (left.elim s s.putAside).takeAll others
  | .valued others last value => do (← s.takeAll others).take last value
  | .needsValue others last => .ok { s with waiting? := some (others, last) }

/-! ### Commands -/

/-- Takes an argument that is no option: it is the subject if there is none yet. -/
def ArgState.takePlain (s : ArgState) (arg : String) : ArgState :=
  match s.subject? with
  | none => { s with subject? := some arg, afterSubject := true }
  | some _ => { s.putAside arg with afterSubject := false }

/-- Takes a double dash, which has no place behind anything but the subject. -/
def ArgState.takeDashes (s : ArgState) : ArgState :=
  if s.subject?.isNone || s.afterSubject then { s with afterSubject := false }
  else s.putAside "--"

def takeArg (flags : List Flag) (s : ArgState) (item : String × Mark) : Except ArgStop ArgState :=
  match s.waiting?, item with
  | some (others, last), (value, .plain) => do
    let s ← ArgState.takeAll { s with waiting? := none } others
    s.take last value
  | some _, _ => .error .misuse
  | none, (arg, .plain) => .ok (s.takePlain arg)
  | none, (_, .dashes) => .ok s.takeDashes
  | none, (arg, .unknownOption) => .ok { s.putAside arg with afterSubject := false }
  | none, (_, .option f attached) => do
    ArgState.obey { s with afterSubject := false } (← request flags f attached)

/-- What a command line can ask for. -/
inductive Command
  | compile (file : String) (output? : Option String) (profile : Bool)
  | run (file : String) (profile : Bool)
  | check (path : String) (denyWarnings noWarnings json : Bool)
  | tokens (file : String)
  | tree (file : String)
deriving DecidableEq, Repr

/-- What a command line asks for. -/
inductive Invocation
  | command (c : Command)
  | help
  | version
  | misuse
deriving DecidableEq, Repr

def helpFlag : Flag := { names := ["-h", "--help"], setting := .help }

def profileFlag : Flag := { names := ["--profile"], setting := .profile }

def globalFlags : List Flag :=
  [helpFlag, { names := ["--version", "-v"], setting := .version }]

/-- A command's options, and the command for what was read of them. -/
def commandOf? : String → Option (List Flag × (String → ArgState → Command))
  | "compile" => some (
    [helpFlag, { names := ["-o", "--output"], setting := .output, takesValue := true }, profileFlag],
    fun file s => .compile file (s.value? .output) (s.has .profile))
  | "run" => some ([helpFlag, profileFlag], fun file s => .run file (s.has .profile))
  | "check" => some (
    [helpFlag, { names := ["--deny-warnings", "-W"], setting := .denyWarnings },
      { names := ["--no-warnings"], setting := .noWarnings },
      { names := ["--json"], setting := .json }],
    fun path s => .check path (s.has .denyWarnings) (s.has .noWarnings) (s.has .json))
  | "tokens" => some ([helpFlag], fun file _ => .tokens file)
  | "ast" => some ([helpFlag], fun file _ => .tree file)
  | _ => none

/-- Reads a command.  `extras` says whether something before it has no place. -/
def readNamed (name : String) (args : List String) (extras : List String) :
    Except ArgStop Command := do
  match commandOf? name with
  | none => throw .misuse
  | some (flags, make) =>
    let s ← (← marks flags args).foldlM (takeArg flags) {}
    match s.subject?, s.waiting? with
    | some subject, none =>
      if s.extras.isEmpty && extras.isEmpty then return make subject s else throw .misuse
    | _, _ => throw .misuse

/-- Reads what stands before a command, and the command. -/
def readGlobal : ArgState → List (String × Mark) → Except ArgStop (Option Command)
  | s, [] => if s.extras.isEmpty then .ok none else .error .misuse
  | s, (arg, .unknownOption) :: rest => readGlobal (s.putAside arg) rest
  | s, (_, .option f attached) :: rest => do
    let s ← s.obey (← request globalFlags f attached)
    readGlobal s rest
  | s, (name, .plain) :: rest => some <$> readNamed name (rest.map Prod.fst) s.extras
  | _, (_, .dashes) :: _ => .error .misuse

def Invocation.ofArgs (args : List String) : Invocation :=
  match marks globalFlags args >>= readGlobal {} with
  | .ok (some c) => .command c
  | .ok none => .help
  | .error .help => .help
  | .error .version => .version
  | .error .misuse => .misuse

end Owl.Cli
