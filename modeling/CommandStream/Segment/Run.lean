import CommandStream.Segment.Basic

/-! # Runs of transfers

Passes work on maximal runs of consecutive plain transfers. Every other segment is a barrier and
stays where it is.
-/

namespace CommandStream

/-- A piece of a stream: a run of transfers, never empty, or a barrier. -/
inductive Piece where
  | run (first : Transfer) (rest : List Transfer)
  | barrier (s : Segment)
  deriving DecidableEq, Repr

/-- Cut a stream into maximal runs whose neighbours satisfy `joins`, and barriers. -/
def pieces (joins : Transfer → Transfer → Bool) : List Segment → List Piece
  | [] => []
  | .transfer t :: rest =>
    match pieces joins rest with
    | .run first others :: more =>
      if joins t first then .run t (first :: others) :: more
      else .run t [] :: .run first others :: more
    | more => .run t [] :: more
  | s :: rest => .barrier s :: pieces joins rest

/-- Replace every run by what `f` makes of it. -/
def mapRuns (joins : Transfer → Transfer → Bool) (f : List Transfer → List Segment)
    (segments : List Segment) : List Segment :=
  (pieces joins segments).flatMap fun
    | .run first rest => f (first :: rest)
    | .barrier s => [s]

def permuteRuns (joins : Transfer → Transfer → Bool) (f : List Transfer → List Transfer)
    (segments : List Segment) : List Segment :=
  mapRuns joins (fun run => (f run).map .transfer) segments

end CommandStream
