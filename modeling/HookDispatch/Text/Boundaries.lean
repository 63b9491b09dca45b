/-!
Classes of characters by their boundaries. A class of code points is written as the ascending list
of the points where membership changes, beginning outside: a point is inside exactly when an odd
number of boundaries lie at or below it.
-/
namespace HookDispatch.Text

/-- Whether a code point lies inside the class with the given boundaries. -/
def insideBoundaries (boundaries : List Nat) (point : Nat) : Bool :=
  boundaries.foldl (fun inside b => if b ≤ point then !inside else inside) false

end HookDispatch.Text
