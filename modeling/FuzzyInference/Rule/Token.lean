import FuzzyInference.Connective
import FuzzyInference.Text.Lowercase

/-!
# Tokens of rules

* `Token`: what a rule is made of; the text of a name is kept apart from its token;
* `Token.ofWord?`: the token of a keyword, in any letter case.
-/

namespace FuzzyInference.Rule

/-- What a rule is made of. -/
inductive Token where
  | start
  | ifWord
  | isWord
  | thenWord
  | connective (c : Connective)
  | leftPar
  | rightPar
  | ident
  | finish
  deriving Repr, DecidableEq

namespace Token

/-- The token as it stands in messages. -/
def name : Token → String
  | start => "START"
  | ifWord => "IF"
  | isWord => "IS"
  | thenWord => "THEN"
  | connective c => c.name
  | leftPar => "LEFT_PAR"
  | rightPar => "RIGHT_PAR"
  | ident => "IDENT"
  | finish => "END"

/-- The keywords in small letters. -/
def keywords : List (Text × Token) := [
  ("if", ifWord), ("is", isWord), ("then", thenWord),
  ("and", connective .and), ("or", connective .or)]

/-- The token of a keyword in any letter case; other words have none. -/
def ofWord? (word : Text) : Option Token := keywords.lookup (Text.lowercase word)

end Token

end FuzzyInference.Rule
