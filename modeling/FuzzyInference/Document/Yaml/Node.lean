import FuzzyInference.Document.Yaml.Token

/-!
# The structure of a YAML text

* `Node`: scalars, lists and mappings before scalars are given values;
* `Node.ofTokens`: the one document that the tokens of a text make up.

What is left out, such as a value behind a key, is a plain scalar without characters. Tokens that
end too early are followed by a fault, `ending`.
-/

namespace FuzzyInference.Document.Yaml

/-- A part of a document. -/
inductive Node where
  | scalar (s : Scalar)
  | list (items : List Node)
  | mapping (entries : List (Node × Node))
  deriving Repr, Inhabited

namespace Node

/-- What stands for a part that is left out. -/
def missing : Node := .scalar (.plain "")

/-- Whether a token of the given ones comes next; the end of the text counts as none of them. -/
def comes (ts : List Token) (expected : List Token) : Bool :=
  ts.head?.any expected.contains

/-- A part of a document and the tokens behind it. -/
abbrev Part := Except Fault (Node × List Token)

/-- What is wrong where the tokens do not go on as they should: they have ended or are others. -/
def misplaced (ending : Fault) (ts : List Token) : Fault :=
  if ts.isEmpty then ending else .structural

mutual

/-- A part of a document. Blocks are not allowed between brackets; behind a key the items of a
list may stand without a block of their own. -/
def read (ending : Fault) (fuel : Nat) (inBlock afterKey : Bool) (ts : List Token) : Part :=
  match fuel with
  | 0 => .error .structural
  | fuel + 1 =>
    match ts with
    | .scalar s :: rest => .ok (.scalar s, rest)
    | .openList :: rest => flowItems ending fuel [] rest
    | .openMapping :: rest => flowEntries ending fuel [] rest
    | .blockList :: rest =>
      if inBlock then blockItems ending fuel [] rest else .error .structural
    | .blockMapping :: rest =>
      if inBlock then blockEntries ending fuel [] rest else .error .structural
    | .dash :: _ => if afterKey then looseItems ending fuel [] ts else .error .structural
    | _ => .error (misplaced ending ts)

/-- A part that may be left out before the given tokens. -/
def readUnless (ending : Fault) (fuel : Nat) (before : List Token) (inBlock afterKey : Bool)
    (ts : List Token) : Part :=
  match fuel with
  | 0 => .error .structural
  | fuel + 1 =>
    if comes ts before then .ok (missing, ts) else read ending fuel inBlock afterKey ts

/-- The rest of a list in a block of its own. -/
def blockItems (ending : Fault) (fuel : Nat) (done : List Node) (ts : List Token) : Part :=
  match fuel, ts with
  | fuel + 1, .dash :: rest =>
    match readUnless ending fuel [.dash, .blockEnd] true false rest with
    | .ok (n, rest) => blockItems ending fuel (done ++ [n]) rest
    | .error f => .error f
  | _ + 1, .blockEnd :: rest => .ok (.list done, rest)
  | _, _ => .error (misplaced ending ts)

/-- The rest of a list behind a key, which ends where no dash follows. -/
def looseItems (ending : Fault) (fuel : Nat) (done : List Node) (ts : List Token) : Part :=
  match fuel, ts with
  | fuel + 1, .dash :: rest =>
    match readUnless ending fuel [.dash, .key, .value, .blockEnd] true false rest with
    | .ok (n, rest) => looseItems ending fuel (done ++ [n]) rest
    | .error f => .error f
  | _ + 1, _ => .ok (.list done, ts)
  | 0, _ => .error .structural

/-- The rest of a mapping in a block. -/
def blockEntries (ending : Fault) (fuel : Nat) (done : List (Node × Node)) (ts : List Token) :
    Part :=
  let next : List Token := [.key, .value, .blockEnd]
  match fuel, ts with
  | fuel + 1, .key :: rest =>
    match readUnless ending fuel next true true rest with
    | .ok (k, .value :: rest) =>
      match readUnless ending fuel next true true rest with
      | .ok (v, rest) => blockEntries ending fuel (done ++ [(k, v)]) rest
      | .error f => .error f
    | .ok (k, rest) => blockEntries ending fuel (done ++ [(k, missing)]) rest
    | .error f => .error f
  | _ + 1, .blockEnd :: rest => .ok (.mapping done, rest)
  | _, _ => .error (misplaced ending ts)

/-- The rest of a list between brackets. A key with its value is a mapping of one entry. -/
def flowItems (ending : Fault) (fuel : Nat) (done : List Node) (ts : List Token) : Part :=
  match fuel, ts with
  | _ + 1, .closeList :: rest => .ok (.list done, rest)
  | fuel + 1, .key :: rest =>
    match readUnless ending fuel [.value, .comma, .closeList] false false rest with
    | .ok (k, .value :: rest) =>
      match readUnless ending fuel [.comma, .closeList] false false rest with
      | .ok (v, rest) => flowItemsEnd ending fuel (done ++ [.mapping [(k, v)]]) rest
      | .error f => .error f
    | .ok (k, rest) => flowItemsEnd ending fuel (done ++ [.mapping [(k, missing)]]) rest
    | .error f => .error f
  | fuel + 1, ts =>
    match read ending fuel false false ts with
    | .ok (n, rest) => flowItemsEnd ending fuel (done ++ [n]) rest
    | .error f => .error f
  | 0, _ => .error .structural

/-- What follows an item between brackets: a comma, or the end of the list. -/
def flowItemsEnd (ending : Fault) (fuel : Nat) (done : List Node) (ts : List Token) : Part :=
  match fuel, ts with
  | fuel + 1, .comma :: rest => flowItems ending fuel done rest
  | _ + 1, .closeList :: rest => .ok (.list done, rest)
  | _, _ => .error (misplaced ending ts)

/-- The rest of a mapping between brackets. -/
def flowEntries (ending : Fault) (fuel : Nat) (done : List (Node × Node)) (ts : List Token) :
    Part :=
  match fuel, ts with
  | _ + 1, .closeMapping :: rest => .ok (.mapping done, rest)
  | fuel + 1, .key :: rest =>
    match readUnless ending fuel [.value, .comma, .closeMapping] false false rest with
    | .ok (k, .value :: rest) =>
      match readUnless ending fuel [.comma, .closeMapping] false false rest with
      | .ok (v, rest) => flowEntriesEnd ending fuel (done ++ [(k, v)]) rest
      | .error f => .error f
    | .ok (k, rest) => flowEntriesEnd ending fuel (done ++ [(k, missing)]) rest
    | .error f => .error f
  | fuel + 1, ts =>
    match read ending fuel false false ts with
    | .ok (k, rest) => flowEntriesEnd ending fuel (done ++ [(k, missing)]) rest
    | .error f => .error f
  | 0, _ => .error .structural

/-- What follows an entry between brackets: a comma, or the end of the mapping. -/
def flowEntriesEnd (ending : Fault) (fuel : Nat) (done : List (Node × Node)) (ts : List Token) :
    Part :=
  match fuel, ts with
  | fuel + 1, .comma :: rest => flowEntries ending fuel done rest
  | _ + 1, .closeMapping :: rest => .ok (.mapping done, rest)
  | _, _ => .error (misplaced ending ts)

end

/-- The document that makes up the tokens, unless a fault stands behind them. There is at most one
document; its start and end may be marked. -/
def ofTokens (ts : List Token) (fault : Option Fault) : Except Fault Node :=
  let fuel := 3 * ts.length + 3
  let ending := fault.getD .structural
  let document : Part := match ts with
    | [] => .ok (missing, [])
    | .documentStart :: rest =>
      if rest.isEmpty || comes rest [.documentStart, .documentEnd] then .ok (missing, rest)
      else read ending fuel true false rest
    | ts => read ending fuel true false ts
  match document, fault with
  | .error f, _ => .error f
  | .ok (n, rest), none => if rest.all (· = .documentEnd) then .ok n else .error .structural
  | .ok (_, rest), some f => .error (if rest.all (· = .documentEnd) then f else .structural)

end Node

end FuzzyInference.Document.Yaml
