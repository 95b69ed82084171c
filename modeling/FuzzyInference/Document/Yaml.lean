import FuzzyInference.Document.Yaml.Node
import FuzzyInference.Document.Yaml.Plain

/-!
# Reading YAML

Block and bracketed lists and mappings, plain and quoted scalars, and comments are read. Of equal
keys the last one counts. A key `<<` takes in the entries of a mapping, or of each mapping of a
list; the entries that stand in the mapping itself count more.

Values are given level by level: to all that stands in the outermost list or mapping, then to all
that stands in those inside it, and so on. So of several faults the one on the outermost level is
met, and of those of a level the first; that a mapping cannot take in entries is noticed before its
entries are looked at.

* `Misreading`: a fault with its level;
* `takesIn`: whether a mapping can take in entries as it should;
* `nodeValue`: the value of a node;
* `Yaml.read`: the value of a text, if it can be read.
-/

namespace FuzzyInference.Document.Yaml

/-! ### Faults by levels -/

/-- A fault, and the level on which it is met. -/
structure Misreading where
  level : Nat
  fault : Fault
  deriving Repr, DecidableEq

/-- What was read, or the fault that is met first. -/
abbrev Outcome := Except Misreading

/-- The misreading that is met first; on the same level `a` comes before `b`. -/
def Misreading.first (a b : Misreading) : Misreading := if b.level < a.level then b else a

/-- Two outcomes as one. -/
def together {β γ δ : Type} (f : β → γ → δ) (a : Outcome β) (b : Outcome γ) : Outcome δ :=
  match a, b with
  | .ok x, .ok y => .ok (f x y)
  | .error m, .ok _ => .error m
  | .ok _, .error n => .error n
  | .error m, .error n => .error (m.first n)

/-! ### Scalars -/

/-- A node as a key of its own kind, before scalars are given values. -/
def isMergeKey : Node → Bool
  | .scalar (.plain "<<") => true
  | _ => false

/-- The value of a scalar. Two plain scalars have a meaning only as keys. -/
def scalarValue : Scalar → Except Fault Value
  | .quoted t => .ok (.text t)
  | .plain s => if s == "=" || s == "<<" then .error .structural else plainValue s

/-- The value of a key: a scalar. -/
def keyValue : Node → Except Fault Value
  | .scalar (.plain "=") => .ok (.text "=")
  | .scalar s => scalarValue s
  | _ => .error .structural

/-- What is read on a level. -/
def onLevel {β : Type} (level : Nat) (r : Except Fault β) : Outcome β :=
  r.mapError fun f => ⟨level, f⟩

/-! ### Entries to be taken in -/

mutual

/-- Whether all entries that a mapping should take in are those of mappings. -/
def takesIn : List (Node × Node) → Bool
  | [] => true
  | (k, n) :: rest => (!isMergeKey k || isTaken n) && takesIn rest

/-- Whether the entries of a node can be taken in. -/
def isTaken : Node → Bool
  | .mapping entries => takesIn entries
  | .list items => areTaken items
  | .scalar .. => false

/-- Whether the entries of the items of a list can be taken in. -/
def areTaken : List Node → Bool
  | [] => true
  | .mapping entries :: rest => takesIn entries && areTaken rest
  | _ :: _ => false

end

/-! ### Nodes -/

/-- Entries of a mapping. -/
abbrev Entries := List (Value × Value)

mutual

/-- The value of a node on a level; what a list or mapping holds is one level further in. -/
def nodeValue (level : Nat) : Node → Outcome Value
  | .scalar s => onLevel level (scalarValue s)
  | .list items => (nodeValues (level + 1) items).map .list
  | .mapping entries =>
    if !takesIn entries then .error ⟨level + 1, .structural⟩
    else
      let (taken, own) := nodeEntries (level + 1) entries
      (together (· ++ ·) taken own).map fun es =>
        .map (es.foldl (fun done e => Value.put e.1 e.2 done) [])

/-- The values of several nodes. -/
def nodeValues (level : Nat) : List Node → Outcome (List Value)
  | [] => .ok []
  | n :: rest => together List.cons (nodeValue level n) (nodeValues level rest)

/-- The entries that are taken into a mapping, and those of its own. -/
def nodeEntries (level : Nat) : List (Node × Node) → Outcome Entries × Outcome Entries
  | [] => (.ok [], .ok [])
  | (k, n) :: rest =>
    let (taken, own) := nodeEntries level rest
    if isMergeKey k then (together (· ++ ·) (takenEntries level n) taken, own)
    else
      let entry := together Prod.mk (onLevel level (keyValue k)) (nodeValue level n)
      (taken, together List.cons entry own)

/-- The entries that a node contributes to a mapping on the level. -/
def takenEntries (level : Nat) : Node → Outcome Entries
  | .mapping entries =>
    let (taken, own) := nodeEntries level entries
    together (· ++ ·) taken own
  | .list items => takenItems level items
  | .scalar .. => .error ⟨level, .structural⟩

/-- The entries of mappings put together, from the last mapping to the first. -/
def takenItems (level : Nat) : List Node → Outcome Entries
  | [] => .ok []
  | .mapping entries :: rest =>
    let (taken, own) := nodeEntries level entries
    together (· ++ ·) (takenItems level rest) (together (· ++ ·) taken own)
  | _ :: _ => .error ⟨level, .structural⟩

end

/-- The value of a YAML text; a text without content is null. -/
def read (text : String) : Except Fault Value :=
  let (tokens, fault) := tokensOf text
  match Node.ofTokens tokens fault with
  | .error f => .error f
  | .ok n => (nodeValue 0 n).mapError (·.fault)

end FuzzyInference.Document.Yaml
