import Unstrip.Image

/-!
# Anchors

A table is found by its signature alone, without any help from section boundaries. The anchor is
the lowest position where the signature of a supported release stands. If there is none, a header
of another release may still be recognised by its shape; `foreignMagic?` says what that shape is.
-/

namespace Unstrip

/-- The position of a table's header, and the release that its signature belongs to. -/
structure Anchor where
  offset : Nat
  release : Release
  deriving DecidableEq, Repr

namespace Anchor

def signatures : List (Release × List UInt8) :=
  Release.all.map fun release => (release, release.signature)

/-- The release whose signature stands at `offset`. The signatures differ in their first byte, so
there is at most one. -/
def releaseAt? (image : Image) (offset : Nat) : Option Release :=
  (signatures.find? fun (_, signature) => image.hasAt signature offset).map (·.1)

/-- What the signatures of all releases, known and unknown, share: the three upper bytes of the
magic number and the two zero bytes after it. -/
def commonTail : List UInt8 := [0xff, 0xff, 0xff, 0x00, 0x00]

/-- The magic number at `offset`, if a header of some release seems to open there: the first byte
is at least `F0`, the shared part of all signatures follows, the instruction quantum is 1, 2 or 4,
and pointers have four or eight bytes. -/
def foreignMagic? (image : Image) (offset : Nat) : Option Nat :=
  if image.hasAt commonTail (offset + 1) then
    match image.slice offset Release.openingSize with
    | [low, _, _, _, _, _, quantum, pointer] =>
      if 0xf0 ≤ low ∧ quantum ∈ [1, 2, 4] ∧ pointer ∈ [4, 8] then some (image.number offset 4)
      else none
    | _ => none
  else none

/-- The lowest position with a supported signature. -/
def first? (image : Image) : Option Anchor := do
  let offset ← Image.firstFrom (fun i => (releaseAt? image i).isSome) image.size 0
  return ⟨offset, ← releaseAt? image offset⟩

/-- The magic number of the first header that is recognised by its shape. -/
def firstForeign? (image : Image) : Option Nat := do
  let offset ← Image.firstFrom (fun i => (foreignMagic? image i).isSome) image.size 0
  foreignMagic? image offset

def find (image : Image) : Except Fault Anchor :=
  match first? image with
  | some anchor => .ok anchor
  | none =>
    match firstForeign? image with
    | some magic => .error (.unsupported magic)
    | none => .error .notFound

/-- The anchors at the `count` positions from `start` on. -/
def occurrencesFrom (image : Image) : (count start : Nat) → List Anchor
  | 0, _ => []
  | count + 1, start =>
    match releaseAt? image start with
    | some release => ⟨start, release⟩ :: occurrencesFrom image count (start + 1)
    | none => occurrencesFrom image count (start + 1)

/-- Every position with a supported signature, from low to high. -/
def occurrences (image : Image) : List Anchor := occurrencesFrom image image.size 0

end Anchor

end Unstrip
