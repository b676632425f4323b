/-!
# Command-line arguments

Options have a long name after two dashes and may have a letter after one. Flags
of one letter can stand together, a value follows its letter, and a long option
takes its value after an equals sign or as the next argument, whatever that
looks like. Two dashes alone end the options.
-/

namespace CodeAtlas.Arguments

structure OptionSpec where
  long : String
  letter : Option Char := none
  takesValue : Bool := false
  deriving DecidableEq, Repr

/-- An option that was given, by its long name; flags have no value. -/
structure Given where
  name : String
  value : Option String := none
  deriving DecidableEq, Repr

def byName? (specs : List OptionSpec) (name : List Char) : Option OptionSpec :=
  specs.find? fun o => o.long.toList = name

def byLetter? (specs : List OptionSpec) (c : Char) : Option OptionSpec :=
  specs.find? fun o => o.letter = some c

/-- Reads letters after one dash: the options, and whether the last of them still lacks its
value. -/
def letters (specs : List OptionSpec) : List Char → Option (List Given × Option String)
  | [] => some ([], none)
  | c :: cs =>
    match byLetter? specs c with
    | none => none
    | some o =>
      if o.takesValue then
        if cs.isEmpty then some ([], some o.long)
        else some ([⟨o.long, some (String.ofList cs)⟩], none)
      else (letters specs cs).map fun (given, lacking) => (⟨o.long, none⟩ :: given, lacking)

/-- What follows the first equals sign, if there is one. -/
def valuePart? (arg : List Char) : Option String :=
  match arg.dropWhile (· != '=') with
  | [] => none
  | _ :: value => some (String.ofList value)

/-- Reads one argument that starts with a dash, in the same way. -/
def option? (specs : List OptionSpec) (arg : List Char) : Option (List Given × Option String) :=
  match arg with
  | '-' :: '-' :: long =>
    match byName? specs (long.takeWhile (· != '=')) with
    | none => none
    | some o =>
      match o.takesValue, valuePart? long with
      | true, some v => some ([⟨o.long, some v⟩], none)
      | true, none => some ([], some o.long)
      | false, none => some ([⟨o.long, none⟩], none)
      | false, some _ => none
  | _ => letters specs (arg.drop 1)

/-- Splits arguments into options and others. Without `mixed`, the first other argument ends the
options. None when an option is unknown or used wrongly. -/
def parse (specs : List OptionSpec) (mixed : Bool) :
    List String → Option (List Given × List String)
  | [] => some ([], [])
  | arg :: rest =>
    if arg = "--" then some ([], rest)
    else
      match arg.toList with
      | '-' :: _ :: _ =>
        match option? specs arg.toList with
        | none => none
        | some (given, none) =>
          (parse specs mixed rest).map fun (more, others) => (given ++ more, others)
        | some (given, some name) =>
          match rest with
          | [] => none
          | value :: rest =>
            (parse specs mixed rest).map fun (more, others) =>
              (given ++ ⟨name, some value⟩ :: more, others)
      | _ =>
        if mixed then (parse specs mixed rest).map fun (given, others) => (given, arg :: others)
        else some ([], arg :: rest)

end CodeAtlas.Arguments
