import Lockstep.Report.Render
import Lockstep.Text.Reader

/-!
# The command line

The program has one command, which has options only. A line is read from left to
right, and the first mistake decides. An option that takes a value stays open
until the next word: the word is its value unless it is an option itself. The
value of an option is checked when the option after it is read.
-/

namespace Lockstep

/-- The options of the program. -/
inductive Flag where
  | request
  | catalog
  | format
  | depth
  | why
  | inverted
  | conflicts
  | verbose
  | help
  | version
deriving DecidableEq, Repr

namespace Flag

/-- The options that may stand before the command. -/
def outer : List Flag :=
  [verbose, help, version]

/-- The options of the command. -/
def inner : List Flag :=
  [request, catalog, format, depth, why, inverted, conflicts, verbose, help]

def long : Flag → String
  | request => "request"
  | catalog => "catalog"
  | format => "format"
  | depth => "depth"
  | why => "why"
  | inverted => "inverted"
  | conflicts => "conflicts"
  | verbose => "verbose"
  | help => "help"
  | version => "version"

def short? : Flag → Option Char
  | request => some 'r'
  | catalog => some 'c'
  | format => some 'f'
  | verbose => some 'v'
  | help => some 'h'
  | version => some 'V'
  | _ => none

def takesValue : Flag → Bool
  | request | catalog | format | depth | why | inverted => true
  | conflicts | verbose | help | version => false

/-- May be given more than once. -/
def repeats : Flag → Bool
  | catalog => true
  | _ => false

end Flag

/-- Why a line asks for nothing that can be done. -/
inductive UsageError where
  /-- The request is not given. -/
  | missingRequest
  | unknownArgument
  /-- An option without its value, or with one that is not among the possible ones. -/
  | invalidValue
  /-- A number that is none or too large. -/
  | invalidNumber
  /-- An option that is given twice. -/
  | conflict
  /-- A value for an option that takes none. -/
  | unneededValue
  | unknownCommand
  | missingCommand
  /-- Not an error: the help is asked for. -/
  | help
  /-- Not an error: the version is asked for. -/
  | version
  /-- Nothing is given. -/
  | nothing
deriving DecidableEq, Repr

def UsageError.message : UsageError → String
  | missingRequest => "the request is not given"
  | unknownArgument => "there is no such argument"
  | invalidValue => "an option lacks its value or has an impossible one"
  | invalidNumber => "the depth is not a whole number of 32 bits"
  | conflict => "an option is given twice"
  | unneededValue => "an option that takes no value has one"
  | unknownCommand => "there is no such command"
  | missingCommand => "no command is given"
  | nothing => "nothing is given"
  | help => "the help is asked for"
  | version => "the version is asked for"

/-- What the command is asked to do. -/
structure Invocation where
  request : String
  catalogs : List String
  view : View
deriving DecidableEq, Repr

/-! ## Values -/

/-- Depths are numbers of 32 bits. -/
def depthBound : Nat := 4294967296

/-- A whole number below the bound, with an optional sign. -/
def depth? (s : String) : Option Nat :=
  let (negative, digits) := match s.toList with
    | '-' :: ds => (true, ds)
    | '+' :: ds => (false, ds)
    | ds => (false, ds)
  let n := Text.decimal digits
  if digits.isEmpty || !Text.isDecimal digits || (negative && 0 < n) || depthBound ≤ n then none
  else some n

/-- Checks the value of an option. -/
def Flag.checkValue (f : Flag) (value : String) : Except UsageError Unit :=
  match f with
  | request | catalog => if value.isEmpty then .error .invalidValue else .ok ()
  | format => if (Format.ofName? value).isNone then .error .invalidValue else .ok ()
  | depth => if (depth? value).isNone then .error .invalidNumber else .ok ()
  | _ => .ok ()

/-! ## Options -/

/-- The options read so far. -/
structure Options where
  /-- Options with their values, the last one first. -/
  given : List (Flag × String) := []
  /-- The last option, if its value has not been checked yet, with the value if it is there. -/
  pending : Option (Flag × Option String) := none

namespace Options

/-- Adds an option with its value; those that take none have the empty one. -/
def take (o : Options) (f : Flag) (value : String) : Except UsageError Options := do
  if !f.repeats && o.given.any (·.1 == f) then throw .conflict
  f.checkValue value
  return { o with given := (f, value) :: o.given }

/-- Checks the pending option. -/
def settle (o : Options) : Except UsageError Options :=
  match o.pending with
  | none => .ok o
  | some (_, none) => .error .invalidValue
  | some (f, some value) => { o with pending := none }.take f value

/-- Adds an option that takes no value, or answers it. -/
def switch (o : Options) (f : Flag) : Except UsageError Options := do
  let o ← o.settle
  match f with
  | .help => throw .help
  | .version => throw .version
  | f => o.take f ""

/-- Adds an option with the value attached to it, if there is one. -/
def start (o : Options) (f : Flag) (attached : Option String) : Except UsageError Options := do
  let o ← o.settle
  match attached with
  | some value => o.take f value
  | none => return { o with pending := some (f, none) }

/-- Reads a long option, without its dashes. -/
def readLong (known : List Flag) (word : List Char) (o : Options) : Except UsageError Options :=
  let name := word.takeWhile (· != '=')
  let attached := match word.dropWhile (· != '=') with
    | _ :: value => some (String.ofList value)
    | [] => none
  match known.find? (·.long == String.ofList name) with
  | none => .error .unknownArgument
  | some f =>
    if f.takesValue then o.start f attached
    else if attached.isSome then .error .unneededValue
    else o.switch f

/-- Reads a group of short options, without its dash. The rest of the group after an option that
takes a value is that value, if it is not empty. -/
def readShort (known : List Flag) : List Char → Options → Except UsageError Options
  | [], o => .ok o
  | c :: rest, o =>
    match known.find? (·.short? == some c) with
    | none => .error .unknownArgument
    | some f =>
      if f.takesValue then
        match rest with
        | [] => o.start f none
        | '=' :: value => o.start f (some (String.ofList value))
        | value => o.start f (some (String.ofList value))
      else do readShort known rest (← o.switch f)

/-- The values of an option, in the order in which they are given. -/
def values (o : Options) (f : Flag) : List String :=
  (o.given.filter (·.1 == f)).reverse.map Prod.snd

def value? (o : Options) (f : Flag) : Option String :=
  (o.values f).head?

/-- What checked options ask for. -/
def invocation (o : Options) : Except UsageError Invocation :=
  match o.value? .request with
  | none => .error .missingRequest
  | some request => .ok {
      request
      catalogs := o.values .catalog
      view := {
        format := ((o.value? .format).bind Format.ofName?).getD .tree
        depth := (o.value? .depth).bind depth?
        why := o.value? .why
        inverted := o.value? .inverted
        conflicts := (o.value? .conflicts).isSome } }

end Options

/-! ## Lines -/

/-- What a word looks like. -/
inductive Word where
  /-- Two dashes: all words after it are plain. -/
  | dashes
  | long (word : List Char)
  | short (word : List Char)
  | plain
deriving DecidableEq, Repr

/-- A single dash is a plain word. -/
def Word.ofString (s : String) : Word :=
  match s.toList with
  | ['-', '-'] => .dashes
  | '-' :: '-' :: rest => .long rest
  | '-' :: c :: rest => .short (c :: rest)
  | _ => .plain

namespace Invocation

/-- What the options ask for when there are no more words. -/
def finish (o : Options) : Except UsageError Invocation := do
  (← o.settle).invocation

/-- Reads the options of the command. -/
def ofOptions (o : Options) : List String → Except UsageError Invocation
  | [] => finish o
  | s :: rest =>
    match Word.ofString s with
    | .dashes => if rest.isEmpty then finish o else .error .unknownArgument
    | .long word => do ofOptions (← o.readLong Flag.inner word) rest
    | .short word => do ofOptions (← o.readShort Flag.inner word) rest
    | .plain =>
      match o.pending with
      | some (f, none) => ofOptions { o with pending := some (f, some s) } rest
      | _ => .error .unknownArgument

/-- The name of the command. -/
def command : String := "resolve"

/-- The command that gives help on the commands named after it. -/
def helpCommand : String := "help"

/-- Help on a command, which may be the program itself or help. -/
def helpOn : List String → UsageError
  | [] => .help
  | [name] => if name = command ∨ name = helpCommand then .help else .unknownCommand
  | _ => .unknownCommand

/-- Words after two dashes, where no command is looked for any more. -/
def afterDashes (o : Options) : List String → UsageError
  | [] => if o.given.isEmpty then .nothing else .missingCommand
  | s :: _ => if s = command ∨ s = helpCommand then .unknownArgument else .unknownCommand

/-- Reads a line from where no command has been named yet. -/
def ofOuter (o : Options) : List String → Except UsageError Invocation
  | [] => .error (if o.given.isEmpty then .nothing else .missingCommand)
  | s :: rest =>
    if s = command then ofOptions {} rest
    else if s = helpCommand then .error (helpOn rest)
    else match Word.ofString s with
      | .dashes => .error (afterDashes o rest)
      | .long word => do ofOuter (← o.readLong Flag.outer word) rest
      | .short word => do ofOuter (← o.readShort Flag.outer word) rest
      | .plain => .error .unknownCommand

/-- What a line asks for. -/
def ofLine (words : List String) : Except UsageError Invocation :=
  ofOuter {} words

end Invocation

end Lockstep
