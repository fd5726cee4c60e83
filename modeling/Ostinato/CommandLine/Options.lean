import Ostinato.Disk.Path
import Ostinato.Text.Integer
import Ostinato.Text.Quoted

/-!
# Command-line options

Every word of a command line is classified before any is acted on. An option may be cut short as
long as only one option starts that way, and its argument may follow after an equals sign. Words
that belong to no option are collected and refused at the end. The mark `--` is no argument on its
own; what it is after an equals sign depends on the release of the option reader (`MarkRule`).
-/

namespace Ostinato

/-- The options. -/
inductive Flag
  | help
  | data
  | style
  | instruments
  | tracks
  | output
  | loops
  | debug
  deriving DecidableEq, Repr

/-- What becomes of the mark `--` after an equals sign. -/
inductive MarkRule
  /-- It is an argument as any other. -/
  | kept
  /-- It is dropped, as early releases do, and the option is given nothing. -/
  | dropped
  deriving DecidableEq, Repr

/-- What an option is given: an argument, or nothing where the mark `--` was dropped. -/
inductive Given (α : Type)
  | argument (a : α)
  | nothing
  deriving DecidableEq, Repr

/-- What an option is given, read by a function. -/
def Given.map {α β : Type} (f : α → β) : Given α → Given β
  | argument a => argument (f a)
  | nothing => nothing

/-- What a command line asks for. -/
structure Options where
  data : Given Path
  style : Given String
  instruments : Option (Given Path)
  tracks : Option (Given Path)
  output : Given Path
  loops : Option (Given Int)
  debug : Bool
  deriving DecidableEq, Repr

/-- Why a command line is not acted on. -/
inductive UsageFault
  | ambiguous (word : String) (candidates : List String)
  | noArgument (flag : Flag)
  | unwantedArgument (flag : Flag) (argument : String)
  | noInteger (flag : Flag) (argument : String)
  | unrecognized (words : List String)
  deriving DecidableEq, Repr

namespace Flag

/-- The options by their spellings. -/
def table : List (String × Flag) := [
  ("-h", help), ("--help", help), ("--data", data), ("--style", style),
  ("--instruments", instruments), ("--tracks", tracks), ("--output", output), ("--loops", loops),
  ("--debug", debug)]

/-- All spellings of an option. -/
def text (f : Flag) : String :=
  String.intercalate "/" ((table.filter fun e => e.2 = f).map (·.1))

/-- Whether an option has an argument. -/
def takesArgument : Flag → Bool
  | help | debug => false
  | _ => true

end Flag

/-- The text of a usage fault. -/
def UsageFault.message : UsageFault → String
  | ambiguous word candidates =>
    "ambiguous option: " ++ word ++ " could match " ++ String.intercalate ", " candidates
  | noArgument flag => "argument " ++ flag.text ++ ": expected one argument"
  | unwantedArgument flag argument =>
    "argument " ++ flag.text ++ ": ignored explicit argument " ++ Text.quoted argument
  | noInteger flag argument =>
    "argument " ++ flag.text ++ ": invalid int value: " ++ Text.quoted argument
  | unrecognized words => "unrecognized arguments: " ++ String.intercalate " " words

namespace Options

/-- What is asked for if nothing is said. -/
def default : Options where
  data := .argument ⟨.working, ["data"]⟩
  style := .argument "sa3idi"
  instruments := none
  tracks := none
  output := .argument ⟨.working, ["output.mid"]⟩
  loops := none
  debug := false

/-! ## Classes of words -/

/-- What a word of a command line is. -/
inductive Word
  /-- An option, whether it is spelled by a single hyphen and a letter, and what is attached to it:
  the text after an equals sign or, behind a letter, whatever follows. -/
  | option (flag : Flag) (short : Bool) (attached : Option String)
  /-- A word that looks like an option but is none. -/
  | unknown (text : String)
  | argument (text : String)
  /-- The mark after which no word is an option. -/
  | stop
  deriving DecidableEq, Repr

/-- Whether a word is a negative number. A line feed at its end does not count. -/
def isNegativeNumber (word : List Char) : Bool :=
  let isDigit := fun c => (Text.digitValue? c).isSome
  match word with
  | '-' :: rest =>
    let rest := if rest.getLast? = some '\n' then rest.dropLast else rest
    match rest.dropWhile isDigit with
    | [] => !rest.isEmpty
    | '.' :: fraction => !fraction.isEmpty && fraction.all isDigit
    | _ => false
  | _ => false

/-- A word cut at its first equals sign. -/
def cutEquals (word : List Char) : List Char × Option (List Char) :=
  match word.dropWhile (· ≠ '=') with
  | _ :: argument => (word.takeWhile (· ≠ '='), some argument)
  | [] => (word, none)

/-- Whether an option is spelled by a single hyphen and a letter. -/
def isShort (spelling : List Char) : Bool := spelling[1]? ≠ some '-'

/-- The options that a cut-short word can mean, with their spellings and what is attached. -/
def candidates (word : List Char) : List (String × Flag × Option String) :=
  if isShort word then
    -- a letter with more behind it
    (Flag.table.filter fun e => e.1.toList = word.take 2).map fun e =>
      (e.1, e.2, some (String.ofList (word.drop 2)))
  else
    let (front, argument) := cutEquals word
    (Flag.table.filter fun e => front.isPrefixOf e.1.toList).map fun e =>
      (e.1, e.2, argument.map String.ofList)

/-- Classifies a word. -/
def classify (word : String) : Except UsageFault Word :=
  match word.toList with
  | '-' :: c :: cs =>
    let chars := '-' :: c :: cs
    let (front, argument) := cutEquals chars
    let short := isShort chars
    match Flag.table.lookup word, Flag.table.lookup (String.ofList front) with
    | some flag, _ => .ok (.option flag short none)
    | none, some flag => .ok (.option flag short (argument.map String.ofList))
    | none, none =>
      match candidates chars with
      | [] =>
        .ok (if isNegativeNumber chars || chars.contains ' ' then .argument word else .unknown word)
      | [(_, flag, attached)] => .ok (.option flag short attached)
      | several => .error (.ambiguous word (several.map (·.1)))
  | _ => .ok (.argument word)

/-- Classifies the words of a command line. -/
def classifyAll : List String → Except UsageFault (List Word)
  | [] => .ok []
  | word :: rest =>
    if word = "--" then .ok (.stop :: rest.map .argument)
    else
      match classify word with
      | .error fault => .error fault
      | .ok w =>
        match classifyAll rest with
        | .error fault => .error fault
        | .ok ws => .ok (w :: ws)

/-! ## Acting on words -/

variable (rule : MarkRule)

/-- What a word gives to an option. -/
def given (word : String) : Given String :=
  match rule with
  | .kept => .argument word
  | .dropped => if word = "--" then .nothing else .argument word

/-- The count that an option is given. -/
def count (flag : Flag) : Given String → Except UsageFault (Given Int)
  | .nothing => .ok .nothing
  | .argument word =>
    match Text.readLiteral? 10 word.toList with
    | some n => .ok (.argument n)
    | none => .error (.noInteger flag word)

/-- Gives an option its argument. -/
def set (o : Options) (flag : Flag) (word : String) : Except UsageFault Options :=
  let path := (given rule word).map Path.ofText
  match flag with
  | .data => .ok { o with data := path }
  | .style => .ok { o with style := given rule word }
  | .instruments => .ok { o with instruments := some path }
  | .tracks => .ok { o with tracks := some path }
  | .output => .ok { o with output := path }
  | .loops => (count .loops (given rule word)).map fun n => { o with loops := some n }
  | .help | .debug => .ok o

/-- Whether something can be attached to an option without an argument: behind a letter, further
letters can that are options of the same kind. -/
def checkAttached (flag : Flag) (short : Bool) (attached : List Char) : Except UsageFault Unit :=
  let wrong := attached.dropWhile fun c =>
    (Flag.table.lookup (String.ofList ['-', c])).any (!·.takesArgument)
  if !short || attached.isEmpty then .error (.unwantedArgument flag (String.ofList attached))
  else if wrong.isEmpty then .ok ()
  else .error (.unwantedArgument flag (String.ofList wrong))

/-- What a command line comes to: options, or a call for help. -/
inductive Request
  | run (options : Options)
  | help
  deriving DecidableEq, Repr

/-- Acts on words one after the other. `extra` collects, in reverse, those that belong to no
option. -/
def act (o : Options) (extra : List String) : List Word → Except UsageFault Request
  | [] => if extra.isEmpty then .ok (.run o) else .error (.unrecognized extra.reverse)
  | .stop :: rest => act o ("--" :: extra) rest
  | .argument text :: rest => act o (text :: extra) rest
  | .unknown text :: rest => act o (text :: extra) rest
  | .option flag short attached :: rest =>
    if flag.takesArgument then
      match attached, rest with
      | none, .argument text :: rest =>
        match o.set rule flag text with
        | .error fault => .error fault
        | .ok o => act o extra rest
      | none, _ => .error (.noArgument flag)
      | some text, rest =>
        match o.set rule flag text with
        | .error fault => .error fault
        | .ok o => act o extra rest
    else
      match attached.elim (.ok ()) fun text => checkAttached flag short text.toList with
      | .error fault => .error fault
      | .ok () => if flag = .help then .ok .help else act { o with debug := true } extra rest

/-- Reads a command line. -/
def read (words : List String) : Except UsageFault Request :=
  match classifyAll words with
  | .error fault => .error fault
  | .ok ws => act rule default [] ws

end Options

end Ostinato
