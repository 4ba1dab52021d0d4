import ThemeBuilder.Text.Utf8

/-! The command line: one of three verbs, then at most one name. -/
namespace ThemeBuilder

inductive Command where
  | makeAll
  | make (name : Bytes)
  | makeListing (name : Bytes)
  deriving DecidableEq

namespace CommandLine
open Bytes

/-- An argument before any `--` that asks for help: `-h`, its repetitions, `--help` or
`--help=…`. -/
def asksHelp (arg : Bytes) : Bool :=
  (match arg with
    | b :: c :: cs => b == dash && (c :: cs).all (· == 0x68)
    | _ => false)
  || arg == Utf8.encode "--help" || (Utf8.encode "--help=").isPrefixOf arg

/-- An argument that looks like a long option, with or without a value after `=`, but whose name
is no text. -/
def isGarbledOption (arg : Bytes) : Bool :=
  [dash, dash].isPrefixOf arg && !Utf8.valid (arg.takeWhile (· != 0x3d))

/-- The plain arguments, read from the left. The first `--` is dropped and makes all that follow
plain; none where an argument is refused. -/
def plainArguments : List Bytes → Option (List Bytes)
  | [] => some []
  | arg :: args =>
    if arg = [dash, dash] then some args
    else if asksHelp arg || isGarbledOption arg then none
    else (plainArguments args).map (arg :: ·)

def ofVerb (verb : Bytes) (args : List Bytes) : Option Command :=
  if verb = Utf8.encode "make-all" ∨ verb = Utf8.encode "makeall" then
    if args = [] then some .makeAll else none
  else match args with
    | [name] =>
      if verb = Utf8.encode "make" then some (.make name)
      else if verb = Utf8.encode "default" then some (.makeListing name)
      else none
    | _ => none

/-- Reads an argument list that begins with the program's name. Whatever is no command asks for
the usage text. -/
def parse : List Bytes → Option Command
  | _ :: verb :: args => (plainArguments args).bind (ofVerb verb)
  | _ => none

def usage : String :=
  "===============================\n" ++
  "ScummVM Theme Generation Script\n" ++
  "===============================\n" ++
  "Usage:\n" ++
  "scummtheme make-all\n" ++
  "    Builds all the available themes.\n" ++
  "\n" ++
  "scummtheme make [themename]\n" ++
  "    Builds the theme called 'themename'.\n" ++
  "\n" ++
  "scummtheme default [themename]\n" ++
  "    Creates a 'default.inc' file to embed the given theme in the source code.\n"

end CommandLine
end ThemeBuilder
