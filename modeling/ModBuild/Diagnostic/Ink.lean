import ModBuild.Text.Basic

/-!
# Ink

Terminal output is either plain or coloured. Colour is a pair of escape sequences around a text; a
reset that stands inside the text would end the colour early, so the style is switched on again
after it.
-/

namespace ModBuild

inductive Ink
  | plain
  | colored
  deriving DecidableEq, Repr

inductive Color
  | red | green | yellow | magenta | cyan | gray | brightGreen
  deriving DecidableEq, Repr

structure Style where
  bold : Bool := false
  color : Option Color := none
  deriving DecidableEq, Repr

def Color.code : Color → String
  | red => "31"
  | green => "32"
  | yellow => "33"
  | magenta => "35"
  | cyan => "36"
  | gray => "90"
  | brightGreen => "92"

namespace Style

/-- The reset sequence. -/
def off : String := "\x1b[0m"

/-- The sequence that switches the style on, bold before the colour. -/
def on (s : Style) : String :=
  let codes := (if s.bold then ["1"] else []) ++ (s.color.map Color.code).toList
  "\x1b[" ++ ";".intercalate codes ++ "m"

def paint (ink : Ink) (s : Style) (text : String) : String :=
  match ink with
  | .plain => text
  | .colored =>
    s.on ++ .ofList (Text.annotate off.toList s.on.toList text.toList) ++ off

end Style

end ModBuild
