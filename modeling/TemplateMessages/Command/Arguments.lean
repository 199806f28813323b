/-!
# Command lines

Reading a command line stops at the first argument that is not understood.  The
value of an option counts when the argument behind it is reached, so an unknown
option behind it is reported first.
-/

namespace TemplateMessages.Command

/-- What ends the reading of a command line. -/
inductive UsageError where
  | help
  | version
  | missingArgument
  | invalidSubcommand
  | unknownArgument
  | invalidValue
  | argumentConflict
  | tooManyValues
deriving DecidableEq, Repr

structure ExtractOptions where
  resource : String
  output : Option String
  domain : Option String
  locale : Option String
  verbose : Bool
deriving DecidableEq, Repr

end Command

inductive Command where
  | extract (options : Command.ExtractOptions)
  | init
deriving DecidableEq, Repr

namespace Command

/-- What takes a value on the command line of an extraction. -/
inductive Slot where
  | resource
  | output
  | domain
  | locale
deriving DecidableEq, Repr

def Slot.ofLong? : List Char → Option Slot
  | ['o', 'u', 't', 'p', 'u', 't'] => some .output
  | ['d', 'o', 'm', 'a', 'i', 'n'] => some .domain
  | ['l', 'o', 'c', 'a', 'l', 'e'] => some .locale
  | _ => none

/-- Whether the value of a slot is a path, which cannot be empty. -/
def Slot.isPath : Slot → Bool
  | .resource => true
  | .output => true
  | .domain => false
  | .locale => false

/-- What has been read: the values in order of arrival, and the slot read last
with its value, if that has come. -/
structure Progress where
  values : List (Slot × String)
  pending : Option (Slot × Option String)
  verbose : Bool
  /-- Whether the resource has been given. -/
  positional : Bool
deriving DecidableEq, Repr

namespace Progress

def start : Progress := ⟨[], none, false, false⟩

def value? (progress : Progress) (slot : Slot) : Option String :=
  (progress.values.find? fun entry => entry.1 == slot).map (·.2)

/-- Accepts a value for a slot that has none. -/
def accept (progress : Progress) (slot : Slot) (value : String) : Except UsageError Progress :=
  if (progress.value? slot).isSome then .error .argumentConflict
  else if slot.isPath && value.isEmpty then .error .invalidValue
  else .ok ⟨progress.values ++ [(slot, value)], none, progress.verbose, progress.positional⟩

/-- Accepts the pending value; a slot without its value is an error. -/
def settle (progress : Progress) : Except UsageError Progress :=
  match progress.pending with
  | none => .ok progress
  | some (_, none) => .error .invalidValue
  | some (slot, some value) => progress.accept slot value

def await (progress : Progress) (slot : Slot) (value : Option String) : Progress :=
  ⟨progress.values, some (slot, value), progress.verbose,
    progress.positional || slot == .resource⟩

/-- The slot that waits for a value. -/
def awaiting? (progress : Progress) : Option Slot :=
  match progress.pending with
  | some (slot, none) => some slot
  | _ => none

def setVerbose (progress : Progress) : Except UsageError Progress := do
  let progress ← progress.settle
  if progress.verbose then throw .argumentConflict
  return ⟨progress.values, none, true, progress.positional⟩

/-- Opens a slot whose value may be attached to its name. -/
def openSlot (progress : Progress) (slot : Slot) (attached : Option String) :
    Except UsageError Progress := do
  let progress ← progress.settle
  match attached with
  | some value => progress.accept slot value
  | none => return progress.await slot none

/-- Stops at a request for help, unless the value before it is refused. -/
def stop (progress : Progress) (reason : UsageError) : Except UsageError Progress := do
  let _ ← progress.settle
  throw reason

/-- The options that have been read; the locale may also come from the
environment. -/
def finish (progress : Progress) (locale : Option String) :
    Except UsageError ExtractOptions := do
  let progress ← progress.settle
  match progress.value? .resource with
  | none => throw .missingArgument
  | some resource =>
      return ⟨resource, progress.value? .output, progress.value? .domain,
        (progress.value? .locale).or locale, progress.verbose⟩

end Progress

/-- The name of a long option and the value attached to it. -/
def splitLong (text : List Char) : List Char × Option String :=
  let name := text.takeWhile (· != '=')
  if name.length = text.length then (name, none)
  else (name, some (String.ofList (text.drop (name.length + 1))))

def verboseName : List Char := ['v', 'e', 'r', 'b', 'o', 's', 'e']
def helpName : List Char := ['h', 'e', 'l', 'p']
def versionName : List Char := ['v', 'e', 'r', 's', 'i', 'o', 'n']

/-- Reads a long option of an extraction, behind its hyphens. -/
def readLong (progress : Progress) (text : List Char) : Except UsageError Progress :=
  let (name, attached) := splitLong text
  match Slot.ofLong? name with
  | some slot => progress.openSlot slot attached
  | none =>
      if name = verboseName ∨ name = helpName then
        if attached.isSome then .error .tooManyValues
        else if name = verboseName then progress.setVerbose
        else progress.stop .help
      else .error .unknownArgument

/-- Reads a cluster of short options of an extraction, behind its hyphen.  What
follows an option that takes a value is the value. -/
def readShort (progress : Progress) : List Char → Except UsageError Progress
  | [] => .ok progress
  | 'v' :: rest => do
      let progress ← progress.setVerbose
      readShort progress rest
  | 'h' :: _ => progress.stop .help
  | 'o' :: rest =>
      progress.openSlot .output (match rest with
        | [] => none
        | '=' :: value => some (String.ofList value)
        | value => some (String.ofList value))
  | _ => .error .unknownArgument

/-- Reads an argument without a hyphen, or any behind `--`. -/
def readPositional (progress : Progress) (argument : String) : Except UsageError Progress :=
  if progress.positional then .error .unknownArgument
  else do
    let progress ← progress.settle
    return progress.await .resource (some argument)

/-- Reads the arguments of an extraction.  Behind `--` no argument is an
option. -/
def readExtract (progress : Progress) (trailing : Bool) :
    List String → Except UsageError Progress
  | [] => .ok progress
  | argument :: rest => do
      if trailing then
        let progress ← readPositional progress argument
        readExtract progress true rest
      else
        match argument.toList with
        | ['-', '-'] => readExtract progress true rest
        | '-' :: '-' :: text =>
            let progress ← readLong progress text
            readExtract progress false rest
        | '-' :: c :: text =>
            let progress ← readShort progress (c :: text)
            readExtract progress false rest
        | _ =>
            match progress.awaiting? with
            | some slot => readExtract (progress.await slot (some argument)) false rest
            | none =>
                let progress ← readPositional progress argument
                readExtract progress false rest

/-- Reads the arguments of a command that takes none but a request for help. -/
def readInit (trailing : Bool) : List String → Except UsageError Unit
  | [] => .ok ()
  | argument :: rest =>
      if trailing then .error .unknownArgument
      else
        match argument.toList with
        | ['-', '-'] => readInit true rest
        | '-' :: '-' :: text =>
            let (name, attached) := splitLong text
            if name = helpName then .error (if attached.isSome then .tooManyValues else .help)
            else .error .unknownArgument
        | '-' :: 'h' :: _ => .error .help
        | _ => .error .unknownArgument

def extractName : String := "extract"
def initName : String := "init"
def helpCommandName : String := "help"

/-- Answers a request for help about a command. -/
def readHelp : List String → UsageError
  | [] => .help
  | [name] =>
      if [extractName, initName, helpCommandName].contains name then .help
      else .invalidSubcommand
  | _ => .invalidSubcommand

/-- Reads a command line; no command at all is a command line too. -/
def readArguments (locale : Option String) (trailing : Bool) :
    List String → Except UsageError (Option Command)
  | [] => .ok none
  | argument :: rest =>
      let isCommand := [extractName, initName, helpCommandName].contains argument
      if trailing then .error (if isCommand then .unknownArgument else .invalidSubcommand)
      else if argument = extractName then do
        let progress ← readExtract .start false rest
        let options ← progress.finish locale
        return some (.extract options)
      else if argument = initName then do
        readInit false rest
        return some .init
      else if argument = helpCommandName then .error (readHelp rest)
      else
        match argument.toList with
        | ['-', '-'] => readArguments locale true rest
        | '-' :: '-' :: text =>
            let (name, attached) := splitLong text
            if name = helpName ∨ name = versionName then
              .error (if attached.isSome then .tooManyValues
                else if name = helpName then .help else .version)
            else .error .unknownArgument
        | '-' :: 'h' :: _ => .error .help
        | '-' :: 'V' :: _ => .error .version
        | '-' :: _ :: _ => .error .unknownArgument
        | _ => .error .invalidSubcommand

/-- The command of a command line, with the locale of the environment. -/
def parse (arguments : List String) (locale : Option String) :
    Except UsageError (Option Command) :=
  readArguments locale false arguments

end TemplateMessages.Command
