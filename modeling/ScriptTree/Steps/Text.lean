import ScriptTree.World.Text

/-!
# Steps as values

A value stands for steps in two ways: as one text, in which the items of a list are joined as
statements (`World.stepsText`), and as a list of separate operations (`World.stepsList`). Items
that are null are left out of both.
-/

set_option autoImplicit false

namespace ScriptTree.World

/-- The texts of the items that are not null. -/
def itemTexts (w : World) (items : List Value) : List String :=
  (items.filter fun item => !item.isNull).map w.text

/-- The steps of a value as one text. -/
def stepsText (w : World) : Value → String
  | .null => ""
  | .list items => String.ofList (Text.join [';', '\n'] ((w.itemTexts items).map String.toList))
  | value => w.text value

/-- The steps of a value as separate operations. -/
def stepsList (w : World) : Value → List String
  | .list items => w.itemTexts items
  | value => [w.text value]

end ScriptTree.World
