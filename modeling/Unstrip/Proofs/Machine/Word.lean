import Unstrip.Proofs.Reading

/-!
# Words of the machine

Positions, lengths and addresses are words of 64 bits, but nothing keeps a sum of two words a word. In
the modules of this folder the steps of a reading are written out once more with all operations that a
machine carries out unchecked: a sum, product or difference that is no word *traps*, and so does a
slice or an item outside of its sequence. `ComesTo` relates such a computation to the same one on
natural numbers: it does not trap, and has the same value or the same fault.
-/

namespace Unstrip.Machine

/-- An unchecked operation that goes wrong. -/
inductive Trap where
  /-- A sum or a product is no word. -/
  | overflow
  /-- A difference is below zero. -/
  | underflow
  /-- A slice or an item lies outside of its sequence. -/
  | outOfRange
  deriving DecidableEq, Repr

/-- Why a computation stops early. -/
inductive Stop where
  | trap (trap : Trap)
  | fault (fault : Fault)
  deriving DecidableEq, Repr

section
variable {α β : Type}

def raise (fault : Fault) : Except Stop α := .error (.fault fault)

/-! ## Unchecked operations -/

def add (a b : Nat) : Except Stop Nat :=
  if a + b < wordLimit then .ok (a + b) else .error (.trap .overflow)

def mul (a b : Nat) : Except Stop Nat :=
  if a * b < wordLimit then .ok (a * b) else .error (.trap .overflow)

def sub (a b : Nat) : Except Stop Nat :=
  if b ≤ a then .ok (a - b) else .error (.trap .underflow)

def item (items : List α) (index : Nat) : Except Stop α :=
  match items[index]? with
  | some a => .ok a
  | none => .error (.trap .outOfRange)

def slice (items : List α) (start stop : Nat) : Except Stop (List α) :=
  if start ≤ stop ∧ stop ≤ items.length then .ok ((items.take stop).drop start)
  else .error (.trap .outOfRange)

def copy (items : List α) (length : Nat) : Except Stop (List α) :=
  if items.length = length then .ok items else .error (.trap .outOfRange)

/-! ## Checked operations -/

def checkedAdd? (a b : Nat) : Option Nat := if a + b < wordLimit then some (a + b) else none

def checkedMul? (a b : Nat) : Option Nat := if a * b < wordLimit then some (a * b) else none

/-- The sum, or the greatest word if the sum is no word. -/
def saturatingAdd (a b : Nat) : Nat := min (a + b) (wordLimit - 1)

/-- The outcome of a computation as a value, for a caller that goes on after a fault. -/
def attempt : Except Stop α → Except Stop (Except Fault α)
  | .ok a => .ok (.ok a)
  | .error (.fault fault) => .ok (.error fault)
  | .error (.trap trap) => .error (.trap trap)

theorem add_eq_ok {a b : Nat} (h : a + b < wordLimit) : add a b = .ok (a + b) := if_pos h

theorem mul_eq_ok {a b : Nat} (h : a * b < wordLimit) : mul a b = .ok (a * b) := if_pos h

theorem sub_eq_ok {a b : Nat} (h : b ≤ a) : sub a b = .ok (a - b) := if_pos h

/-- Within 63 bits, the size of an image can be counted on. -/
theorem succ_lt_wordLimit {size : Nat} (h : size < 1 <<< 63) : size + 1 < wordLimit := by
  have hlimit : wordLimit = 2 * (1 <<< 63) := by decide
  omega

theorem slice_eq_ok {items : List α} {start stop : Nat} (h : start ≤ stop) (hin : stop ≤ items.length) :
    slice items start stop = .ok ((items.take stop).drop start) := if_pos ⟨h, hin⟩

theorem item_eq_ok {items : List α} {index : Nat} (h : index < items.length) :
    item items index = .ok items[index] := by
  rw [item, List.getElem?_eq_getElem h]

theorem mapM_eq_ok {α β : Type} {f : α → Except Stop β} {g : α → β} {items : List α}
    (h : ∀ a ∈ items, f a = .ok (g a)) : items.mapM f = .ok (items.map g) := by
  induction items with
  | nil => rfl
  | cons a rest ih =>
    rw [List.mapM_cons, h a List.mem_cons_self, ih fun b hb => h b (List.mem_cons_of_mem a hb)]
    rfl

/-! ## Computations that do not trap -/

/-- The computation does not trap, and comes to the given outcome. -/
def ComesTo (x : Except Stop α) (y : Except Fault α) : Prop := x = y.mapError Stop.fault

namespace ComesTo

theorem pure (a : α) : ComesTo (Pure.pure a) (Pure.pure a) := rfl

theorem raise (fault : Fault) : ComesTo (Machine.raise fault : Except Stop α) (.error fault) := rfl

theorem bind {x : Except Stop α} {y : Except Fault α} {f : α → Except Stop β} {g : α → Except Fault β}
    (h : ComesTo x y) (hfg : ∀ a, y = .ok a → ComesTo (f a) (g a)) : ComesTo (x >>= f) (y >>= g) := by
  unfold ComesTo at h
  subst h
  cases y with
  | error fault => rfl
  | ok a => exact hfg a rfl

/-- A step that only the machine takes. -/
theorem bind_ok {x : Except Stop α} {a : α} {f : α → Except Stop β} {y : Except Fault β} (h : x = .ok a)
    (hf : ComesTo (f a) y) : ComesTo (x >>= f) y := by
  subst h
  exact hf

theorem guard {c : Prop} [Decidable c] {fault : Fault} {f : α → Except Stop β} {g : α → Except Fault β}
    {x : Except Stop β} {y : Except Fault β} (h : ¬ c → ComesTo x y) :
    ComesTo (if c then Machine.raise fault >>= f else x) (if c then throw fault >>= g else y) := by
  by_cases hc : c
  · rw [if_pos hc, if_pos hc]
    rfl
  · rw [if_neg hc, if_neg hc]
    exact h hc

/-- A guard that the machine passes on its way, and the other computation in an earlier part. -/
theorem guard_bind {γ : Type} {c : Prop} [Decidable c] {fault : Fault} {f : γ → Except Stop β}
    {g : γ → Except Fault α} {x : Except Stop β} {y : Except Fault α} {k : α → Except Fault β}
    (h : ¬ c → ComesTo x (y >>= k)) :
    ComesTo (if c then Machine.raise fault >>= f else x)
      ((if c then throw fault >>= g else y) >>= k) := by
  by_cases hc : c
  · rw [if_pos hc, if_pos hc]
    rfl
  · rw [if_neg hc, if_neg hc]
    exact h hc

theorem attempt {x : Except Stop α} {y : Except Fault α} (h : ComesTo x y) :
    Machine.attempt x = .ok y := by
  unfold ComesTo at h
  subst h
  cases y <;> rfl

theorem eq_ok {x : Except Stop α} {a : α} (h : ComesTo x (.ok a)) : x = .ok a := h

end ComesTo

end

end Unstrip.Machine
