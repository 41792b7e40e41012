import HostSubnets.Cli.Options

/-!
# Reading a command line

A command line names a command and then its options, `--name value` or `--name=value`. A word that
starts with a hyphen is never the value of the option before it. What an option was given is looked
at when the next option that the command knows is reached, or at the end, so that an unknown word
is reported before a wrong value in front of it.

* `Word` : how one word is to be taken;
* `readOptions` : the options of a command;
* `Command.read` : the command of a command line and an environment.
-/

namespace HostSubnets

namespace Cli

inductive Word where
  /-- Two hyphens, after which there are no options. -/
  | divider
  | long (name : String) (value : Option String)
  | short (first : Char)
  | plain (word : String)
deriving DecidableEq, Repr

def Word.of (word : String) : Word :=
  match word.toList with
  | ['-', '-'] => .divider
  | '-' :: '-' :: rest =>
    let value := match rest.dropWhile (· != '=') with
      | [] => none
      | _ :: value => some (String.ofList value)
    .long (String.ofList (rest.takeWhile (· != '='))) value
  | '-' :: first :: _ => .short first
  | _ => .plain word

/-- An option that was reached, with its value if that followed already. -/
abbrev Pending := Option (CliOption × Option String)

def resolve (d : Draft) : Pending → Except UsageError Draft
  | none => .ok d
  | some (o, none) => .error (.invalidValue o)
  | some (o, some value) => d.give o value

/-- An answer that is given once everything before it is in order. -/
def answerAfter (d : Draft) (pending : Pending) (answer : UsageError) : Except UsageError Draft :=
  match resolve d pending with
  | .error e => .error e
  | .ok _ => .error answer

def readOptions (options : List CliOption) (d : Draft) (pending : Pending) :
    List String → Except UsageError Draft
  | [] => resolve d pending
  | word :: rest =>
    match Word.of word with
    | .divider =>
      match rest with
      | [] => resolve d pending
      | extra :: _ => .error (.unknownArgument extra)
    | .short first =>
      if first = 'h' then answerAfter d pending .helpRequested
      else .error (.unknownArgument (String.ofList ['-', first]))
    | .plain word =>
      match pending with
      | some (o, none) => readOptions options d (some (o, some word)) rest
      | _ => .error (.unknownArgument word)
    | .long name value =>
      match options.find? fun o => o.name == name, value with
      | none, value =>
        if name = "help" then
          if value.isSome then .error (.valueForFlag "--help")
          else answerAfter d pending .helpRequested
        else .error (.unknownArgument ("--" ++ name))
      | some o, some value =>
        if o.isSwitch then .error (.valueForFlag ("--" ++ o.name))
        else
          match resolve d pending with
          | .error e => .error e
          | .ok d =>
            match d.give o value with
            | .error e => .error e
            | .ok d => readOptions options d none rest
      | some o, none =>
        match resolve d pending with
        | .error e => .error e
        | .ok d =>
          if o.isSwitch then
            match d.give o "true" with
            | .error e => .error e
            | .ok d => readOptions options d none rest
          else readOptions options d (some (o, none)) rest

/-- The options of a command, from its words and then from the environment. -/
def readCommand (options : List CliOption) (environment : List (String × String))
    (words : List String) : Except UsageError Draft :=
  match readOptions options .empty none words with
  | .error e => .error e
  | .ok d => d.consult environment options

def commandNames : List String := ["controller", "cleanup", "help"]

/-- What is answered to a request for help on a command. -/
def helpOn : List String → UsageError
  | [] => .helpRequested
  | [name] => if name ∈ commandNames then .helpRequested else .unknownCommand
  | _ => .unknownCommand

def answerTo : Word → UsageError
  | .long "help" value => if value.isSome then .valueForFlag "--help" else .helpRequested
  | .long "version" value => if value.isSome then .valueForFlag "--version" else .versionRequested
  | .long name _ => .unknownArgument ("--" ++ name)
  | .short 'h' => .helpRequested
  | .short 'V' => .versionRequested
  | .short first => .unknownArgument (String.ofList ['-', first])
  | _ => .unknownCommand

end Cli

open Cli in
/-- The command that a command line and an environment ask for. -/
def Command.read (environment : List (String × String)) : List String → Except UsageError Command
  | [] => .error .missingCommand
  | "controller" :: words =>
    (readCommand CliOption.ofController environment words).map fun d =>
      .controller d.controllerSettings
  | "cleanup" :: words =>
    (readCommand CliOption.ofNetwork environment words).map fun d => .cleanup d.networkSettings
  | "help" :: words => .error (helpOn words)
  | ["--"] => .error .missingCommand
  | "--" :: word :: _ =>
    .error (if word ∈ commandNames then .unknownArgument word else .unknownCommand)
  | word :: _ => .error (answerTo (Word.of word))

end HostSubnets
