/-
  Repeater/Config.lean
  ====================
  **Configuration.**

  What a page asks before it deletes an item, what it writes on a scope that has started, and which
  elements may be delete controls.
-/
import Repeater.Text.Split

namespace Repeater

/-- The settings of a page. -/
structure Config where
  /-- The question before a delete; the placeholder stands for the label of the control. -/
  confirmTemplate : String := "The following action will be performed:\n- \x7blabel\x7d"
  /-- The label of a control that has none. -/
  defaultLabel : String := "Delete element"
  /-- The value of the attribute that marks a scope as started. -/
  startedValue : String := "true"
  /-- The tags of elements that may be delete controls. -/
  controlTags : List String := ["button"]
deriving DecidableEq, Repr

namespace Config

/-- What stands for the label in the question. -/
def placeholder : String := "\x7blabel\x7d"

/-- The question for a control with the label. -/
def confirmMessage (config : Config) (label : String) : String :=
  String.ofList
    (Text.replaceAll placeholder.toList label.toList config.confirmTemplate.toList)

/-- Whether elements of the tag may be delete controls; ASCII case does not matter. -/
def isControl (config : Config) (tag : String) : Bool :=
  config.controlTags.any fun accepted => accepted.toLower == tag.toLower

end Config

end Repeater
