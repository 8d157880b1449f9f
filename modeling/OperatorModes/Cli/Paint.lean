/-!
# Paint

Marks of a few lines are painted where the terminal is asked for colour.
-/

namespace OperatorModes.Cli

/-- The colours in use. -/
inductive Paint where
  | boldRed
  | boldYellow
  | red
  | green
  | yellow
  deriving DecidableEq, Repr

/-- The number of a colour for a terminal. -/
def Paint.code : Paint → String
  | boldRed => "1;31"
  | boldYellow => "1;33"
  | red => "31"
  | green => "32"
  | yellow => "33"

/-- The escape character of terminals. -/
def escape : String := String.singleton (Char.ofNat 0x1B)

/-- The text in a colour, if colours are wanted. -/
def paint (wanted : Bool) (p : Paint) (text : String) : String :=
  if wanted then escape ++ "[" ++ p.code ++ "m" ++ text ++ escape ++ "[0m" else text

/-- A variable of the environment that switches something: only `0` switches it off. -/
def switchedOn (value : Option String) : Option Bool :=
  value.map (· != "0")

/-- Whether colours are wanted: when they are forced, or the output is a terminal and they are
nowhere refused. -/
def wantsColour (force none_ normal : Option String) (isTerminal : Bool) : Bool :=
  if switchedOn force = some true then true
  else if (switchedOn none_).isSome then false
  else (switchedOn normal).getD true && isTerminal

end OperatorModes.Cli
