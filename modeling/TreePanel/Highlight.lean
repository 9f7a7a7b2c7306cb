import TreePanel.Transaction

/-!
# The highlight

At most one span is highlighted, and never one without width. A change of the selection clears the
highlight; the effects of an update then set or clear it in turn, so the last one decides.
-/

namespace TreePanel.Highlight

/-- The span that an effect leaves highlighted. -/
def ofEffect : Effect → Option Span
  | some span => if span.isEmpty then none else some span
  | none => none

/-- The highlight after an update, from the highlight before it. -/
def next (current : Option Span) (selectionChanged : Bool) (effects : List Effect) : Option Span :=
  effects.foldl (fun _ effect => ofEffect effect) (if selectionChanged then none else current)

/-- The highlight after an update, and whether it differs from the one before. -/
def apply (current : Option Span) (selectionChanged : Bool) (effects : List Effect) :
    Option Span × Bool :=
  let after := next current selectionChanged effects
  (after, current != after)

end TreePanel.Highlight
