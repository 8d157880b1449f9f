import OperatorModes.Decimal.Shortest

/-!
# Decimal layout

How the digits of a decimal are set out as text: in place around a point while the leading digit
has a moderate power of ten, and with an exponent otherwise. The text always has a point or an
exponent, so it cannot be taken for that of an integer.
-/

namespace OperatorModes.Decimal

/-- The powers of ten of the leading digit for which the digits stand in place. -/
structure Layout where
  plainFrom : Int
  plainTo : Int

namespace Layout

/-- The power of the leading digit, with its sign always written. -/
def exponentText (e : Int) : List Char :=
  (if e < 0 then '-' else '+') :: (toString e.natAbs).toList

/-- The digits of `d * 10 ^ k`, set out. -/
def digits (layout : Layout) (d : Nat) (k : Int) : List Char :=
  let ds := (toString d).toList
  let lead : Int := k + ds.length - 1
  if lead < layout.plainFrom ∨ layout.plainTo < lead then
    match ds with
    | [] => []
    | [c] => c :: 'e' :: exponentText lead
    | c :: rest => c :: '.' :: rest ++ 'e' :: exponentText lead
  else if 0 ≤ k then ds ++ List.replicate k.toNat '0' ++ ['.', '0']
  else if 0 ≤ lead then ds.take (lead + 1).toNat ++ '.' :: ds.drop (lead + 1).toNat
  else '0' :: '.' :: List.replicate (-lead - 1).toNat '0' ++ ds

/-- The text of a double: sign and shortest digits. -/
def text (layout : Layout) (x : Binary64) : List Char :=
  let body :=
    if x.isZero then ['0', '.', '0']
    else
      let (d, k) := shortest x
      layout.digits d k
  if x.isNegative then '-' :: body else body

end Layout

end OperatorModes.Decimal
