import FuzzyInference.Document.Value
import FuzzyInference.Text.Digit
import FuzzyInference.Text.Quoted

/-!
# Options

A command line is a list of arguments. Those that begin with a dash name options; an option takes
none, one or any number of the arguments behind it, or one behind an equals sign. The others are
operands. A double dash ends the options, and where it is itself an argument it does not count. A
long name may be cut short where no other name begins in the same way, and short options without
arguments may be written together.

* `Named`, `Operand`, `Grammar`: what a command line may hold;
* `Grammar.classify`: what an argument is;
* `Grammar.parse`: what was found in a command line, and the arguments that were not understood.
-/

namespace FuzzyInference.Options

open FuzzyInference.Document

/-- How many arguments an option takes. -/
inductive Arity where
  | none
  | one
  | many
  deriving Repr, DecidableEq

/-- How an argument is read as a value, or what is wrong with it. -/
abbrev Reading := Text → Except Text Value

/-- An option with its names; what it is given is found under `key`. -/
structure Named where
  key : Text
  names : List Text
  arity : Arity
  required : Bool
  read : Reading

/-- What operands are: one or more values, or the name of a command with all that follows. -/
inductive OperandKind where
  | values
  | command
  deriving Repr, DecidableEq

/-- The operands of a command line, which have to be there. -/
structure Operand where
  name : Text
  kind : OperandKind
  read : Reading

/-- What a command line may hold; `program` is what it begins with. -/
structure Grammar where
  program : Text
  named : List Named
  operand : Option Operand

/-- Why a command line is refused, or that help was asked for. -/
inductive Refusal where
  | error (program text : Text)
  | help (usage : Text)
  deriving Repr, DecidableEq

/-- What was found: each time that an option or the operands were met, the value given. -/
abbrev Found := List (Text × Value)

/-- The option as it stands in messages. -/
def Named.title (o : Named) : Text := Text.join "/" o.names

/-- The option that asks for help. -/
def helpOption : Named := ⟨"help", ["-h", "--help"], .none, false, fun s => .ok (.text s)⟩

/-- What the option looks like on a command line. -/
def Named.usage (o : Named) : Text :=
  let shown := o.title ++ match o.arity with
    | .none => ""
    | .one => " VALUE"
    | .many => " [VALUE ...]"
  if o.required then shown else "[" ++ shown ++ "]"

/-- What a command line looks like. -/
def Grammar.usage (g : Grammar) : Text :=
  "usage: " ++ Text.join " "
    (g.program :: g.named.map (·.usage) ++
      (g.operand.map fun o => (o.name ++ " ..." : Text)).toList) ++ "
"

/-! ### Arguments -/

/-- What an argument is. -/
inductive Kind where
  | value
  /-- The double dash that ends the options. -/
  | stop
  /-- An option that is not known. -/
  | unknown
  /-- A known option under a name, with the text that stands behind the name, if there is some. -/
  | option (o : Named) (name : Text) (rest : Option Text)

/-- An argument with what it is. -/
structure Argument where
  text : Text
  kind : Kind

def Argument.isValue (a : Argument) : Bool :=
  match a.kind with
  | .value => true
  | _ => false

def Argument.isOption (a : Argument) : Bool :=
  match a.kind with
  | .option .. | .unknown => true
  | _ => false

def Argument.isStop (a : Argument) : Bool :=
  match a.kind with
  | .stop => true
  | _ => false

/-- The text before the first equals sign, and the text behind it if there is one. -/
def splitEquals (arg : Text) : Text × Option Text :=
  match arg.toList.span (· != .char '=') with
  | (name, []) => (Text.ofList name, none)
  | (name, _ :: rest) => (Text.ofList name, some (Text.ofList rest))

def isDecimalDigit (c : Char) : Bool := (Text.digitValue? c).isSome

/-- Whether the argument is a negative number; a line feed may follow it. -/
def isNegativeNumber (arg : Text) : Bool :=
  match arg.toList with
  | .char '-' :: cs =>
    let cs := if cs.getLast? = some (.char '\n') then cs.dropLast else cs
    match cs.span (·.is isDecimalDigit) with
    | (whole, []) => !whole.isEmpty
    | (_, .char '.' :: places) => !places.isEmpty && places.all (·.is isDecimalDigit)
    | _ => false
  | _ => false

namespace Grammar

/-- All names with their options. -/
def names (g : Grammar) : List (Text × Named) :=
  g.named.flatMap fun o => o.names.map fun n => (n, o)

def find? (g : Grammar) (name : Text) : Option Named := g.names.lookup name

/-- The names that an argument may be short for, each as a kind of argument. -/
def abbreviated (g : Grammar) (arg : Text) : List (Text × Kind) :=
  if arg.startsWith "--" then
    let (start, rest) := splitEquals arg
    (g.names.filter fun (n, _) => n.startsWith start).map fun (n, o) =>
      (n, .option o n rest)
  else
    let short := Text.ofList (arg.toList.take 2)
    g.names.filterMap fun (n, o) =>
      if n = short then some (n, .option o n (some (Text.ofList (arg.toList.drop 2))))
      else if n.startsWith arg then some (n, .option o n none)
      else none

/-- What an argument before the end of the options is. An argument that looks like an option is a
value if it is a negative number or holds a space. -/
def classify (g : Grammar) (arg : Text) : Except Refusal Kind :=
  if !arg.startsWith "-" then .ok .value
  else
    match g.find? arg with
    | some o => .ok (.option o arg none)
    | none =>
      if arg.length = 1 then .ok .value
      else
        let (name, rest) := splitEquals arg
        match rest, g.find? name with
        | some rest, some o => .ok (.option o name (some rest))
        | _, _ =>
          match g.abbreviated arg with
          | [(_, kind)] => .ok kind
          | [] =>
            .ok (if isNegativeNumber arg || arg.contains ' ' then .value else .unknown)
          | several =>
            .error (.error g.program
              ("ambiguous option: " ++ arg ++ " could match " ++
                Text.join ", " (several.map (·.1))))

/-- All arguments with what they are. -/
def classifyAll (g : Grammar) : List Text → Except Refusal (List Argument)
  | [] => .ok []
  | arg :: rest =>
    if arg = "--" then .ok (⟨arg, .stop⟩ :: rest.map fun a => ⟨a, .value⟩)
    else
      match g.classify arg with
      | .error e => .error e
      | .ok kind =>
        match g.classifyAll rest with
        | .error e => .error e
        | .ok more => .ok (⟨arg, kind⟩ :: more)

/-! ### Parsing -/

/-- What has been found, whether the operands are still to come, and what was not understood. -/
structure Progress where
  found : Found
  operandOpen : Bool
  extras : List Text

/-- The refusal of an argument of an option or of the operands. -/
def refuse (g : Grammar) (title text : Text) : Refusal :=
  .error g.program ("argument " ++ title ++ ": " ++ text)

/-- The values of arguments, or what is wrong with the first one that cannot be read. -/
def readAll (g : Grammar) (title : Text) (read : Reading) (args : List Text) :
    Except Refusal (List Value) :=
  (args.mapM read).mapError (g.refuse title)

/-- The mark of the end of the options, which counts as no argument where it first stands. -/
def withoutMark (args : List Text) : List Text := args.erase "--"

/-- The value of an option: whether it is there, its argument, or the list of its arguments. The
list is empty where the mark of the end of the options is its argument. -/
def valueOf (arity : Arity) (values : List Value) : Value :=
  match arity, values with
  | .none, _ => .bool true
  | .one, [v] => v
  | _, values => .list values

/-- Notes an option with its arguments. -/
def note (g : Grammar) (p : Progress) (o : Named) (args : List Text) :
    Except Refusal Progress :=
  match g.readAll o.title o.read (withoutMark args) with
  | .error e => .error e
  | .ok values =>
    if o.key = helpOption.key then .error (.help g.usage)
    else .ok { p with found := p.found ++ [(o.key, valueOf o.arity values)] }

/-- Notes several options without arguments. -/
def noteAll (g : Grammar) (p : Progress) : List Named → Except Refusal Progress
  | [] => .ok p
  | o :: rest =>
    match g.note p o [] with
    | .error e => .error e
    | .ok p => g.noteAll p rest

/-- The arguments that an option takes from those behind it, and how many they are. -/
def following (g : Grammar) (o : Named) (rest : List Argument) :
    Except Refusal (List Text) :=
  match o.arity with
  | .none => .ok []
  | .one =>
    match rest with
    | a :: _ =>
      if a.isValue then .ok [a.text] else .error (g.refuse o.title "expected one argument")
    | [] => .error (g.refuse o.title "expected one argument")
  | .many => .ok ((rest.takeWhile (·.isValue)).map (·.text))

/-- Takes an option with the arguments behind it; `before` are the options without arguments that
are written together with it. Text attached to an option without arguments has to be the letters of
other options. -/
def takeOption (g : Grammar) (fuel : Nat) (p : Progress) (before : List Named) (o : Named)
    (name : Text) (attached : Option Text) (rest : List Argument) :
    Except Refusal (Progress × List Argument) :=
  match attached with
  | none =>
    match g.following o rest with
    | .error e => .error e
    | .ok args =>
      match g.noteAll p before with
      | .error e => .error e
      | .ok p => (g.note p o args).map fun p => (p, rest.drop args.length)
  | some text =>
    let ignored : Except Refusal (Progress × List Argument) :=
      .error (g.refuse o.title ("ignored explicit argument " ++ Text.quote text))
    if o.arity ≠ .none then
      match g.noteAll p before with
      | .error e => .error e
      | .ok p => (g.note p o [text]).map fun p => (p, rest)
    else if name.startsWith "--" then ignored
    else
      match fuel, text.toList with
      | 0, _ | _, [] => ignored
      | fuel + 1, c :: cs =>
        let next := Text.ofList ['-', c]
        match g.find? next with
        | none => ignored
        | some o' =>
          let attached := if cs.isEmpty then none else some (Text.ofList cs)
          g.takeOption fuel p (before ++ [o]) o' next attached rest

/-- How many of the arguments the operands take. Marks of the end of the options before the first
value go with them. -/
def operandCount (kind : OperandKind) (args : List Argument) : Nat :=
  let stops := (args.takeWhile (·.isStop)).length
  match args.drop stops with
  | [] => 0
  | a :: rest =>
    if !a.isValue then 0
    else
      match kind with
      | .values => stops + 1 + (rest.takeWhile (!·.isOption)).length
      | .command => stops + 1 + rest.length

/-- Takes the operands at the front, if they are still to come; values come without the mark of the
end of the options. -/
def takeOperands (g : Grammar) (p : Progress) (args : List Argument) :
    Except Refusal (Progress × List Argument) :=
  match g.operand with
  | none => .ok (p, args)
  | some operand =>
    let n := if p.operandOpen then operandCount operand.kind args else 0
    if n = 0 then .ok (p, args)
    else
      let taken := (args.take n).map (·.text)
      let values := match operand.kind with
        | .values => g.readAll operand.name operand.read (withoutMark taken)
        | .command => do
          let command ← g.readAll operand.name operand.read (taken.take 1)
          return command ++ (taken.drop 1).map Value.text
      values.map fun vs =>
        ({ p with found := p.found ++ [(operand.name, .list vs)], operandOpen := false },
          args.drop n)

/-- Takes all arguments: operands as soon as they can be taken, and options where they stand. -/
def takeAll (g : Grammar) (fuel : Nat) (p : Progress) (args : List Argument) :
    Except Refusal Progress :=
  match fuel with
  | 0 => .ok p
  | fuel + 1 =>
    match args.span (!·.isOption) with
    | (_, []) =>
      match g.takeOperands p args with
      | .error e => .error e
      | .ok (p, rest) => .ok { p with extras := p.extras ++ rest.map (·.text) }
    | (before, a :: rest) =>
      match if before.isEmpty then .ok (p, args) else g.takeOperands p args with
      | .error e => .error e
      | .ok (p, left) =>
        if left.length < args.length then g.takeAll fuel p left
        else
          let p := { p with extras := p.extras ++ before.map (·.text) }
          match a.kind with
          | .option o name attached =>
            match g.takeOption (a.text.length + 1) p [] o name attached rest with
            | .error e => .error e
            | .ok (p, rest) => g.takeAll fuel p rest
          | _ => g.takeAll fuel { p with extras := p.extras ++ [a.text] } rest

/-- What has to be there and was not met: options in the order of the grammar, then operands. -/
def missing (g : Grammar) (p : Progress) : List Text :=
  let isMissing (o : Named) : Bool := o.required && !p.found.any (·.1 = o.key)
  (g.named.filter isMissing).map (·.title) ++
    (if p.operandOpen then (g.operand.map (·.name)).toList else [])

/-- What is found in a command line, and the arguments that are not understood. -/
def parse (g : Grammar) (args : List Text) : Except Refusal (Found × List Text) :=
  match g.classifyAll args with
  | .error e => .error e
  | .ok classified =>
    match g.takeAll (2 * args.length + 2) ⟨[], g.operand.isSome, []⟩ classified with
    | .error e => .error e
    | .ok p =>
      match g.missing p with
      | [] => .ok (p.found, p.extras)
      | names =>
        .error (.error g.program
          ("the following arguments are required: " ++ Text.join ", " names))

end Grammar

end FuzzyInference.Options
