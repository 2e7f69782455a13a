import Ibm704.Text.Quoted

/-!
# Command line flags

A flag has a long name, written `--name`, and possibly a letter, written `-x`.  A
switch stands alone or takes a truth value after an equals sign; other flags take
a value, after an equals sign, as the next argument, or, after a letter, in the
same argument.  Letters of switches may be joined.  Letters that go on with
`test.` are left to others.  Two dashes end the flags, and what is no flag is
positional, wherever it stands.

Arguments are taken from left to right, and the first that is wrong decides.
-/

namespace Ibm704
namespace Command

structure Flag where
  name : Text
  letter : Option UInt8
  switch : Bool
  deriving DecidableEq, Repr

inductive FlagError where
  | badSyntax (argument : Text)
  | unknown (name : Text)
  | unknownLetter (letter : UInt8) (letters : Text)
  | needsArgument (argument : Text)
  | letterNeedsArgument (letter : UInt8) (letters : Text)
  | invalidArgument (value : Text) (flag : Flag)
  deriving DecidableEq, Repr

namespace Flag

def shown (flag : Flag) : Text :=
  match flag.letter with
  | some letter => .ofString "-" ++ [letter] ++ .ofString ", --" ++ flag.name
  | none => .ofString "--" ++ flag.name

end Flag

namespace FlagError

def letterShown (letter : UInt8) : Text :=
  Text.quotedChar (Char.ofNat letter.toNat)

def message : FlagError → Text
  | badSyntax argument => .ofString "bad flag syntax: " ++ argument
  | unknown name => .ofString "unknown flag: --" ++ name
  | unknownLetter letter letters =>
      .ofString "unknown shorthand flag: " ++ letterShown letter ++ .ofString " in -" ++ letters
  | needsArgument argument => .ofString "flag needs an argument: " ++ argument
  | letterNeedsArgument letter letters =>
      .ofString "flag needs an argument: " ++ letterShown letter ++ .ofString " in -" ++ letters
  | invalidArgument value flag =>
      .ofString "invalid argument " ++ value.quoted ++ .ofString " for " ++ flag.shown.quoted ++
        .ofString " flag: strconv.ParseBool: parsing " ++ value.quoted ++
        .ofString ": invalid syntax"

end FlagError

structure Given where
  values : List (Text × Text)
  positional : List Text
  deriving DecidableEq, Repr

def truth? (value : Text) : Option Bool :=
  if ["1", "t", "T", "TRUE", "true", "True"].any fun s => Text.ofString s == value then
    some true
  else if ["0", "f", "F", "FALSE", "false", "False"].any fun s => Text.ofString s == value then
    some false
  else
    none

namespace Given

def empty : Given :=
  ⟨[], []⟩

def set (given : Given) (flag : Flag) (value : Text) : Except FlagError Given :=
  if flag.switch && (truth? value).isNone then
    .error (.invalidArgument value flag)
  else
    .ok { given with values := (flag.name, value) :: given.values }

def addPositional (given : Given) (arguments : List Text) : Given :=
  { given with positional := given.positional ++ arguments }

def value (given : Given) (name : String) (default : String) : Text :=
  (given.values.lookup (.ofString name)).getD (.ofString default)

def isOn (given : Given) (name : String) : Bool :=
  ((given.values.lookup (.ofString name)).bind truth?).getD false

end Given

def equalsSign : UInt8 := 0x3D
def dash : UInt8 := 0x2D

structure Waiting where
  flag : Flag
  otherwise : FlagError

def switchedOn : Text :=
  .ofString "true"

def takeLong (flags : List Flag) (given : Given) (argument name : Text) :
    Except FlagError (Given × Option Waiting) :=
  if name.head? = some dash ∨ name.head? = some equalsSign then
    .error (.badSyntax argument)
  else
    let bare := name.takeWhile (· != equalsSign)
    match flags.find? fun flag => flag.name == bare with
    | none => .error (.unknown bare)
    | some flag =>
        match name.dropWhile (· != equalsSign) with
        | _ :: value => (given.set flag value).map fun given => (given, none)
        | [] =>
            if flag.switch then
              (given.set flag switchedOn).map fun given => (given, none)
            else
              .ok (given, some ⟨flag, .needsArgument argument⟩)

def foreignStart : Text :=
  .ofString "test."

def takeLetters (flags : List Flag) (given : Given) :
    Text → Except FlagError (Given × Option Waiting)
  | [] => .ok (given, none)
  | letter :: rest =>
      if foreignStart.isPrefixOf (letter :: rest) then
        .ok (given, none)
      else match flags.find? fun flag => flag.letter == some letter with
      | none => .error (.unknownLetter letter (letter :: rest))
      | some flag =>
          if rest.head? = some equalsSign ∧ 1 < rest.length then
            (given.set flag rest.tail).map fun given => (given, none)
          else if flag.switch then
            (given.set flag switchedOn).bind fun given => takeLetters flags given rest
          else if rest.isEmpty then
            .ok (given, some ⟨flag, .letterNeedsArgument letter (letter :: rest)⟩)
          else
            (given.set flag rest).map fun given => (given, none)

def takeArguments (flags : List Flag) (given : Given) (waiting : Option Waiting) :
    List Text → Except FlagError Given
  | [] =>
      match waiting with
      | some waiting => .error waiting.otherwise
      | none => .ok given
  | argument :: rest =>
      match waiting with
      | some waiting =>
          (given.set waiting.flag argument).bind fun given => takeArguments flags given none rest
      | none =>
          match argument with
          | first :: second :: more =>
              if first ≠ dash then
                takeArguments flags (given.addPositional [argument]) none rest
              else if second ≠ dash then
                (takeLetters flags given (second :: more)).bind fun (given, waiting) =>
                  takeArguments flags given waiting rest
              else if more.isEmpty then
                .ok (given.addPositional rest)
              else
                (takeLong flags given argument more).bind fun (given, waiting) =>
                  takeArguments flags given waiting rest
          | _ => takeArguments flags (given.addPositional [argument]) none rest

def parseArguments (flags : List Flag) (arguments : List Text) : Except FlagError Given :=
  takeArguments flags .empty none arguments

end Command
end Ibm704
