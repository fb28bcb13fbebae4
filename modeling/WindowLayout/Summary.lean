import WindowLayout.Pane
import WindowLayout.Text.Quoted

/-!
# Summaries for developers

Panes and trees in the form in which they are shown to developers: a few of their parts, by
name. Handles are shown as numbers.

## Main definitions

* `Pane.summary`, `RegionTree.summary`.
-/

namespace WindowLayout

/-- A part that may be missing. -/
def Summary.optional {β : Type} (describe : β → String) : Option β → String
  | none => "None"
  | some x => "Some(" ++ describe x ++ ")"

/-- A handle, by its number. -/
def Summary.handle (h : Handle) : String := "IndexSlot(" ++ toString h.number ++ ")"

/-- Several parts, in order. -/
def Summary.list (parts : List String) : String := "[" ++ ", ".intercalate parts ++ "]"

/-- A pane as it is shown to developers. Factories are shown by their names only. -/
def Pane.summary {σ : Type} (p : Pane σ) : String :=
  "Dock \x7b pane: " ++ Summary.optional Summary.handle p.region ++
    ", factories: " ++ Summary.list (p.factories.keys.map Quoted.text) ++
    ", instances: " ++
      Summary.list (p.instances.map fun e => "ElementId(" ++ toString e.number ++ ")") ++
    ", container: " ++
      Summary.optional (fun c => "ContainerId(" ++ toString c.number ++ ")") p.container ++
    " \x7d"

/-- A tree as it is shown to developers: its root and the number of its regions, not the regions. -/
def RegionTree.summary {α : Type} [Scalar α] (t : RegionTree α) : String :=
  "DivisionTree \x7b root: " ++ Summary.optional Summary.handle t.root ++
    ", len: " ++ toString t.size ++ " \x7d"

end WindowLayout
