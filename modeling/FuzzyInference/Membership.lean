import FuzzyInference.Fault
import FuzzyInference.Scalar

/-!
# Degrees and reasoning

* `Membership.make`: a function from its numbers, if its corners ascend and its height is a
  degree;
* `Membership.degree`: the degree of a scalar;
* `Membership.reason`: the function cut down to a degree of relevance;
* `Membership.support`, `Membership.isReasoned`, `Membership.sameAs`.
-/

namespace FuzzyInference.Membership

variable {α : Type} [Scalar α]

/-- The function with the given numbers. -/
def make (start leftTop rightTop finish height : α) : Except (Fault α) (Membership α) :=
  if !(Scalar.le start leftTop && Scalar.le leftTop rightTop && Scalar.le rightTop finish) then
    .error (.corners start leftTop rightTop finish)
  else if !(Scalar.le Scalar.zero height && Scalar.le height Scalar.one) then
    .error (.height height)
  else .ok ⟨start, leftTop, rightTop, finish, height⟩

/-- The function of a term. -/
def trapezoid (start leftTop rightTop finish : α) : Except (Fault α) (Membership α) :=
  make start leftTop rightTop finish Scalar.one

/-- The function of a term whose tops coincide. -/
def triangle (start top finish : α) : Except (Fault α) (Membership α) :=
  trapezoid start top top finish

/-- Whether the function is a conclusion, cut down from a term. -/
def isReasoned (f : Membership α) : Bool := !Scalar.eq f.height Scalar.one

/-- The ends of the interval outside which the function is zero. -/
def support (f : Membership α) : α × α := (f.start, f.finish)

/-- The degree of `x`. It is zero at both ends of the support, also where a flank is upright. -/
def degree (f : Membership α) (x : α) : α :=
  if !(Scalar.lt f.start x && Scalar.lt x f.finish) then Scalar.zero
  else if Scalar.le f.leftTop x && Scalar.le x f.rightTop then f.height
  else if Scalar.lt x f.leftTop then f.height * (x - f.start) / (f.leftTop - f.start)
  else f.height * (f.finish - x) / (f.finish - f.rightTop)

/-- The term cut down to the degree `h`: its tops move outwards to the points of degree `h`, which
become the ends of the new level part. -/
def reason (f : Membership α) (h : α) : Except (Fault α) (Membership α) :=
  if f.isReasoned then .error (.alreadyReasoned f)
  else if Scalar.eq h Scalar.zero then
    make Scalar.zero Scalar.zero Scalar.zero Scalar.zero Scalar.zero
  else
    make f.start (h * (f.leftTop - f.start) + f.start)
      (f.finish - h * (f.finish - f.rightTop)) f.finish h

/-- Whether two functions have equal numbers. -/
def sameAs (f g : Membership α) : Bool :=
  Scalar.eq f.start g.start && Scalar.eq f.leftTop g.leftTop &&
    Scalar.eq f.rightTop g.rightTop && Scalar.eq f.finish g.finish &&
    Scalar.eq f.height g.height

end FuzzyInference.Membership
