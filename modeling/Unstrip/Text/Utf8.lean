/-!
# UTF-8 text

Function names are stored as UTF-8. `Utf8.decode` reads the well-formed sequences of the Unicode
standard: no overlong forms, no surrogates, nothing above U+10FFFF. A fault names the number of
bytes before it that are good; it is *incomplete* if the input ends inside a sequence that could
still have become good, and otherwise names the length of the longest part of a good sequence
that stands there (at least one byte).
-/

namespace Unstrip.Utf8

/-- Why bytes are not UTF-8. -/
inductive Fault where
  /-- No good sequence begins with the `length` bytes at `index`. -/
  | invalid (index length : Nat)
  /-- The input ends inside the sequence at `index`. -/
  | incomplete (index : Nat)
  deriving DecidableEq, Repr

def Fault.message : Fault → String
  | .invalid index length => s!"invalid utf-8 sequence of {length} bytes from index {index}"
  | .incomplete index => s!"incomplete utf-8 byte sequence from index {index}"

/-- What the first byte of a sequence says about the bytes after it. -/
inductive Lead where
  /-- The byte stands for itself. -/
  | ascii
  /-- One more byte follows. -/
  | two
  /-- Two more bytes follow, the first of them between `low` and `high`. -/
  | three (low high : UInt8)
  /-- Three more bytes follow, the first of them between `low` and `high`. -/
  | four (low high : UInt8)
  /-- No sequence begins with this byte. -/
  | bad
  deriving DecidableEq, Repr

/-- The kind of sequence that a first byte opens. The narrowed ranges after `E0`, `ED`, `F0` and
`F4` leave out overlong forms, surrogates and numbers above U+10FFFF. -/
def lead (b : UInt8) : Lead :=
  if b < 0x80 then .ascii
  else if b < 0xc2 then .bad
  else if b < 0xe0 then .two
  else if b = 0xe0 then .three 0xa0 0xbf
  else if b = 0xed then .three 0x80 0x9f
  else if b < 0xf0 then .three 0x80 0xbf
  else if b = 0xf0 then .four 0x90 0xbf
  else if b < 0xf4 then .four 0x80 0xbf
  else if b = 0xf4 then .four 0x80 0x8f
  else .bad

def isContinuation (b : UInt8) : Bool := 0x80 ≤ b ∧ b ≤ 0xbf

/-- The six bits that a continuation byte carries. -/
def payload (b : UInt8) : Nat := b.toNat % 64

def push (c : Nat) : Except Fault (List Char) → Except Fault (List Char)
  | .ok cs => .ok (Char.ofNat c :: cs)
  | .error fault => .error fault

@[simp] theorem push_ok (c : Nat) (cs : List Char) : push c (.ok cs) = .ok (Char.ofNat c :: cs) := rfl

@[simp] theorem push_error (c : Nat) (fault : Fault) : push c (.error fault) = .error fault := rfl

/-- Decodes bytes of which the first has the given index. -/
def decodeFrom (index : Nat) : List UInt8 → Except Fault (List Char)
  | [] => .ok []
  | b₀ :: rest =>
    match lead b₀ with
    | .bad => .error (.invalid index 1)
    | .ascii => push b₀.toNat (decodeFrom (index + 1) rest)
    | .two =>
      match rest with
      | [] => .error (.incomplete index)
      | b₁ :: rest =>
        if isContinuation b₁ then
          push (b₀.toNat % 32 * 64 + payload b₁) (decodeFrom (index + 2) rest)
        else .error (.invalid index 1)
    | .three low high =>
      match rest with
      | [] => .error (.incomplete index)
      | b₁ :: rest =>
        if low ≤ b₁ ∧ b₁ ≤ high then
          match rest with
          | [] => .error (.incomplete index)
          | b₂ :: rest =>
            if isContinuation b₂ then
              push ((b₀.toNat % 16 * 64 + payload b₁) * 64 + payload b₂)
                (decodeFrom (index + 3) rest)
            else .error (.invalid index 2)
        else .error (.invalid index 1)
    | .four low high =>
      match rest with
      | [] => .error (.incomplete index)
      | b₁ :: rest =>
        if low ≤ b₁ ∧ b₁ ≤ high then
          match rest with
          | [] => .error (.incomplete index)
          | b₂ :: rest =>
            if isContinuation b₂ then
              match rest with
              | [] => .error (.incomplete index)
              | b₃ :: rest =>
                if isContinuation b₃ then
                  push (((b₀.toNat % 8 * 64 + payload b₁) * 64 + payload b₂) * 64 + payload b₃)
                    (decodeFrom (index + 4) rest)
                else .error (.invalid index 3)
            else .error (.invalid index 2)
        else .error (.invalid index 1)

def decode (bytes : List UInt8) : Except Fault (List Char) := decodeFrom 0 bytes

end Unstrip.Utf8
