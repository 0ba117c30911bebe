/-! Combining scores as degrees of truth.

On scores between zero and one, `softOr` is the probability that one of two independent events
happens and `softAnd` that both do. The order of evaluation is part of the definitions, since
floating-point results depend on it.
-/

set_option autoImplicit false

namespace ClassModel.Fuzzy

def softOr (first second : Float) : Float := first + second - first * second

def softAnd (first second : Float) : Float := first * second

/-- Zero when there are no scores. -/
def softOrAll (scores : List Float) : Float := scores.foldl softOr 0.0

/-- One when there are no scores. -/
def softAndAll (scores : List Float) : Float := scores.foldl softAnd 1.0

/-- The sum from left to right. The empty sum is the negative zero, which changes no summand. -/
def sum (scores : List Float) : Float := scores.foldl (· + ·) (-0.0)

end ClassModel.Fuzzy
