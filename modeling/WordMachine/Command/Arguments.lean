import WordMachine.Vm.Config

/-!
# Command-line arguments

Both commands take options anywhere and one path. An option has a long name after two dashes, or a
letter after one; letters may be run together. The value of an option follows it as the next
argument, after an equals sign, or right after its letter. Two dashes alone end the options. A flag
may be given once, an empty value is none, and a value that looks like an option is none either.
-/

namespace WordMachine.Command

/-- What a line of arguments to the runner asks for, as far as it has been read. -/
structure RunArgs where
  help : Bool
  quiet : Bool
  trace : Bool
  libDirs : List String
  save : Option String
  image : Option String
  deriving DecidableEq, Repr

namespace RunArgs

/-- No arguments. -/
def none : RunArgs := ⟨false, false, false, [], .none, .none⟩

end RunArgs

/-- The options of the runner. -/
inductive RunOption where
  | help | quiet | trace | libDir | save
  deriving DecidableEq, Repr

namespace RunOption

/-- Whether an option takes a value. -/
def takesValue : RunOption → Bool
  | libDir | save => true
  | _ => false

/-- The option with a long name. -/
def ofName? : List Char → Option RunOption
  | cs =>
    match String.ofList cs with
    | "help" => some help
    | "quiet" => some quiet
    | "trace" => some trace
    | "lib-dir" => some libDir
    | "save" => some save
    | _ => none

/-- The option with a letter. -/
def ofLetter? : Char → Option RunOption
  | 'h' => some help
  | 'q' => some quiet
  | 'L' => some libDir
  | _ => none

end RunOption

namespace RunArgs

/-- Takes a flag, which must be new. -/
def setFlag (a : RunArgs) : RunOption → Option RunArgs
  | .help => if a.help then .none else some { a with help := true }
  | .quiet => if a.quiet then .none else some { a with quiet := true }
  | .trace => if a.trace then .none else some { a with trace := true }
  | .libDir | .save => .none

/-- Takes an option with its value. Directories add up; another value must be new. -/
def setValue (a : RunArgs) (o : RunOption) (value : List Char) : Option RunArgs :=
  if value = [] then .none
  else
    match o with
    | .libDir => some { a with libDirs := a.libDirs ++ [String.ofList value] }
    | .save => if a.save.isSome then .none else some { a with save := some (String.ofList value) }
    | _ => .none

/-- Takes the path of the image, which must be new. -/
def setImage (a : RunArgs) (path : String) : Option RunArgs :=
  if path.isEmpty ∨ a.image.isSome then .none else some { a with image := some path }

/-- Takes a run of letters after one dash: the arguments, and an option whose value is to follow. -/
def letters (a : RunArgs) : List Char → Option (RunArgs × Option RunOption)
  | [] => some (a, .none)
  | c :: rest => do
    let o ← RunOption.ofLetter? c
    if o.takesValue then
      match rest with
      | [] => return (a, some o)
      | '=' :: value => return (← a.setValue o value, .none)
      | value => return (← a.setValue o value, .none)
    else (← a.setFlag o).letters rest

/-- Takes an option after two dashes: the arguments, and the option if its value is to follow. -/
def longOption (a : RunArgs) (text : List Char) : Option (RunArgs × Option RunOption) := do
  let name := text.takeWhile (· ≠ '=')
  let o ← RunOption.ofName? name
  match text.drop name.length with
  | '=' :: value => if o.takesValue then return (← a.setValue o value, .none) else .none
  | _ => if o.takesValue then return (a, some o) else return (← a.setFlag o, .none)

/-- Takes the arguments after two dashes alone: all are paths. -/
def paths (a : RunArgs) (args : List String) : Option RunArgs := args.foldlM setImage a

/-- Reads arguments. `open?` is an option whose value is to follow. -/
def read (a : RunArgs) (open? : Option RunOption) : List String → Option RunArgs
  | [] => if open?.isSome then .none else some a
  | arg :: args =>
    match arg.toList, open? with
    | '-' :: '-' :: _, some _ => .none
    | '-' :: '-' :: [], .none => a.paths args
    | '-' :: '-' :: text, .none => do
      let (a, open?) ← a.longOption text
      a.read open? args
    | '-' :: _ :: _, some _ => .none
    | '-' :: c :: cs, .none => do
      let (a, open?) ← a.letters (c :: cs)
      a.read open? args
    | value, some o => do (← a.setValue o value).read .none args
    | _, .none => do (← a.setImage arg).read .none args

end RunArgs

/-- The configuration that arguments to the runner ask for, and whether only warnings and errors are
to be logged; none when they ask for help or make no sense. -/
def runConfig? (args : List String) (searchPath : Option String) : Option (Config × Bool) := do
  let a ← RunArgs.none.read .none args
  let image ← a.image
  if a.help then .none
  let config := ((Config.ofImage image).addLibDirs a.libDirs).addSearchPath searchPath
  let config := { config with trace := a.trace }
  return ({ config with save := a.save.getD config.save }, a.quiet)

/-- What arguments to the assembler ask for. -/
inductive AsmRequest where
  | source (path : String)
  | help
  | usage
  deriving DecidableEq, Repr

namespace AsmRequest

/-- The request of a line without further arguments. -/
def ofSource : Option String → AsmRequest
  | some path => .source path
  | none => .usage

/-- Reads arguments. `found` is the source read so far, `options` tells whether options may still
come. -/
def read (found : Option String) (options : Bool) : List String → AsmRequest
  | [] => ofSource found
  | arg :: args =>
    match options, arg.toList with
    | true, ['-', '-'] => read found false args
    | true, '-' :: '-' :: _ => if arg = "--help" then .help else .usage
    | true, '-' :: c :: _ => if c = 'h' then .help else .usage
    | _, [] => .usage
    | _, _ => if found.isSome then .usage else read (some arg) options args

end AsmRequest

/-- What arguments to the assembler ask for. -/
def asmRequest (args : List String) : AsmRequest := AsmRequest.read none true args

end WordMachine.Command
