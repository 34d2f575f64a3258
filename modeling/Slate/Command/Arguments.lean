import Slate.Grammar.Program

/-!
The command line: one path and some options, in any order. Arguments are taken one after the
other, and the first that asks for the version, asks for help or breaks the rules decides. An
option may be given once, except `-v`, and the two options that show the program in another form
exclude each other.
-/

set_option autoImplicit false

namespace Slate

/-- What to do with the program. -/
inductive Task
  | run
  | listTokens
  | outline
deriving DecidableEq

structure Command where
  path : String
  limit : Nat
  task : Task

/-- Why the arguments name no command. -/
inductive Aside
  | version
  | help
  | misuse
deriving DecidableEq

namespace Command

inductive Flag
  | verbose
  | listTokens
  | outline
  | version
  | help
  | unknown
deriving DecidableEq

/-- How one argument reads by itself. -/
inductive Argument
  | flags (flags : List Flag)
  | limit (attached? : Option String)
  | endOfOptions
  | path (path : String)

def shortFlag : Char → Flag
  | 'v' => .verbose
  | 'V' => .version
  | 'h' => .help
  | _ => .unknown

/-- A flag takes no value, so that one with a value is unknown. -/
def longFlag : String → Option String → Flag
  | "verbose", none => .verbose
  | "dump-tokens", none => .listTokens
  | "dump-ast", none => .outline
  | "version", none => .version
  | "help", none => .help
  | _, _ => .unknown

/-- What stands before the first equals sign, and what stands behind it. -/
def splitAtEquals (text : List Char) : String × Option String :=
  let name := text.takeWhile (· != '=')
  (String.ofList name, (text.drop name.length).tail?.map String.ofList)

/-- Two dashes start a long option, one dash starts any number of short ones, and a dash alone is
a path. -/
def Argument.ofString (argument : String) : Argument :=
  match argument.toList with
  | ['-', '-'] => .endOfOptions
  | '-' :: '-' :: long =>
      match splitAtEquals long with
      | ("max-depth", value?) => .limit value?
      | (name, value?) => .flags [longFlag name value?]
  | '-' :: first :: more => .flags ((first :: more).map shortFlag)
  | _ => .path argument

/-- An argument that cannot be the value of an option before it. -/
def isOption (argument : String) : Bool :=
  match Argument.ofString argument with
  | .path _ => false
  | _ => true

/-- A count below two to the power of sixty-four: digits, possibly behind a plus sign. -/
def count? (text : String) : Option Nat :=
  let digits := match text.toList with
    | '+' :: digits => digits
    | digits => digits
  if digits.isEmpty || !digits.all Char.isDigit || UInt64.size ≤ Numeral.value digits then
    none
  else
    some (Numeral.value digits)

/-- What the arguments so far have settled. -/
structure Draft where
  path? : Option String
  limit? : Option Nat
  listsTokens : Bool
  outlines : Bool

namespace Draft

def blank : Draft :=
  ⟨none, none, false, false⟩

def addPath (draft : Draft) (path : String) : Except Aside Draft :=
  if path.isEmpty || draft.path?.isSome then
    .error .misuse
  else
    .ok { draft with path? := some path }

def addLimit (draft : Draft) (value : String) : Except Aside Draft :=
  match count? value, draft.limit? with
  | some limit, none => .ok { draft with limit? := some limit }
  | _, _ => .error .misuse

def addFlag (draft : Draft) : Flag → Except Aside Draft
  | .verbose => .ok draft
  | .listTokens =>
      if draft.listsTokens then .error .misuse else .ok { draft with listsTokens := true }
  | .outline => if draft.outlines then .error .misuse else .ok { draft with outlines := true }
  | .version => .error .version
  | .help => .error .help
  | .unknown => .error .misuse

/-- Takes the arguments one after the other. -/
def addAll (draft : Draft) : List String → Except Aside Draft
  | [] => .ok draft
  | argument :: rest =>
      match Argument.ofString argument, rest with
      | .flags flags, rest => do (← flags.foldlM addFlag draft).addAll rest
      | .limit (some value), rest => do (← draft.addLimit value).addAll rest
      | .limit none, value :: rest =>
          if isOption value then .error .misuse else do (← draft.addLimit value).addAll rest
      | .limit none, [] => .error .misuse
      | .endOfOptions, paths => paths.foldlM addPath draft
      | .path path, rest => do (← draft.addPath path).addAll rest

/-- The command, once all arguments are taken. -/
def toCommand (draft : Draft) : Except Aside Command :=
  let limit := draft.limit?.getD Program.defaultLimit
  match draft.path?, draft.listsTokens, draft.outlines with
  | some path, false, false => .ok ⟨path, limit, .run⟩
  | some path, true, false => .ok ⟨path, limit, .listTokens⟩
  | some path, false, true => .ok ⟨path, limit, .outline⟩
  | some _, true, true => .error .misuse
  | none, _, _ => .error .misuse

end Draft

def ofArguments (arguments : List String) : Except Aside Command := do
  (← Draft.blank.addAll arguments).toCommand

end Command

end Slate
