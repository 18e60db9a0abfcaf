/-!
# Stages

An extraction only moves forward: a signature is found, its header is decoded, the records are
read, and the table is complete. A failure is reported together with the last stage reached.
-/

namespace Unstrip

/-- How far an extraction has come. -/
inductive Stage where
  | unstarted
  | anchorFound
  | headerDecoded
  | readingFunctions
  | complete
  deriving DecidableEq, Repr

namespace Stage

def all : List Stage := [unstarted, anchorFound, headerDecoded, readingFunctions, complete]

def rank : Stage → Nat
  | unstarted => 0
  | anchorFound => 1
  | headerDecoded => 2
  | readingFunctions => 3
  | complete => 4

@[simp] def next? : Stage → Option Stage
  | unstarted => some anchorFound
  | anchorFound => some headerDecoded
  | headerDecoded => some readingFunctions
  | readingFunctions => some complete
  | complete => none

def title : Stage → String
  | unstarted => "unstarted"
  | anchorFound => "anchor found"
  | headerDecoded => "header decoded"
  | readingFunctions => "reading functions"
  | complete => "complete"

/-- The name of the stage in stored data. -/
def key : Stage → String
  | unstarted => "unstarted"
  | anchorFound => "anchor_found"
  | headerDecoded => "header_decoded"
  | readingFunctions => "reading_functions"
  | complete => "complete"

def ofKey? (key : String) : Option Stage := all.find? (·.key == key)

theorem rank_next? {stage next : Stage} (h : stage.next? = some next) :
    next.rank = stage.rank + 1 := by
  cases stage <;> simp only [next?, reduceCtorEq, Option.some.injEq] at h <;> subst h <;> rfl

end Stage

end Unstrip
