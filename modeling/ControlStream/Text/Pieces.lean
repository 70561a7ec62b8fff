/-!
# Pieces of equal length

Cutting a list into pieces of a given length, as a text that is delivered bit by bit.

## Main definitions

* `piecesOf`: the pieces, of which only the last may be shorter.
-/

namespace ControlStream

/-- The pieces of `n` elements of a list, or of one if `n` is zero, in order. The last one may be
shorter, but none is empty. -/
def piecesOf {α : Type} (n : Nat) (s : List α) : List (List α) := go #[] s
where
  /-- Cut off pieces and add them to those before. -/
  go (pieces : Array (List α)) (s : List α) : List (List α) :=
    match s with
    | [] => pieces.toList
    | a :: s => go (pieces.push (a :: s.take (n - 1))) (s.drop (n - 1))
  termination_by s.length
  decreasing_by
    simp only [List.length_drop, List.length_cons]
    omega

end ControlStream
