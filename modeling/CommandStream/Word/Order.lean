/-! # Orders

Sorting is stable and goes by keys that are compared field by field. Taking turns over several
queues is the other way lists are reordered.
-/

namespace CommandStream

def keyLe : List Nat → List Nat → Bool
  | a :: as, b :: bs => a < b || (a == b && keyLe as bs)
  | _, _ => true

/-- Sort by a key and keep the order of equal keys. -/
def sortOn {α : Type} (key : α → List Nat) (xs : List α) : List α :=
  xs.mergeSort fun a b => keyLe (key a) (key b)

/-- The first elements of all queues, the second ones, and so on for the given number of rounds. -/
def turns {α : Type} : Nat → List (List α) → List α
  | 0, _ => []
  | rounds + 1, queues => queues.filterMap List.head? ++ turns rounds (queues.map List.tail)

/-- Take the first element of every queue in turn until all queues are empty. -/
def takeTurns {α : Type} (queues : List (List α)) : List α :=
  turns ((queues.map List.length).foldl max 0) queues

end CommandStream
