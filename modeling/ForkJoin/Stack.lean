import ForkJoin.Failure

/-!
# Room on the stack

Evaluating, comparing and showing go into their subjects part by part, and every level that is
entered takes entries of the stack of the thread. Each thread has a stack of its own. How many
entries a level takes is said where it is entered; here is how they are counted.

The entries need not be counted. Then there is always room, and what is computed does not depend on
how deep it is.
-/

namespace ForkJoin

/-- How many entries of a stack are left, or none if they are not counted. -/
abbrev Room := Option Nat

namespace Room

def less (room : Room) (entries : Nat) : Room :=
  room.map (· - entries)

def has (room : Room) (entries : Nat) : Bool :=
  match room with
  | none => true
  | some left => entries ≤ left

/-- What needs some entries; without room for them the stack is exhausted. -/
@[macro_inline] def need {α : Type} (room : Room) (entries : Nat) (a : Except Fault α) :
    Except Fault α :=
  if room.has entries then a else .error .stackExhausted

@[simp] theorem less_none (entries : Nat) : less none entries = none := rfl

@[simp] theorem has_none (entries : Nat) : has none entries = true := rfl

@[simp] theorem need_none {α : Type} (entries : Nat) (a : Except Fault α) :
    need none entries a = a := rfl

end Room

/-- The stack of a thread: how deep evaluations in it may nest, and its room. -/
structure Stack where
  depth : Nat
  room : Room := none
  deriving Inhabited

end ForkJoin
