import Resumable.Syntax.Names

/-!
# Fresh names

A `NameSupply` hands out names that are made of a fixed stem and a number. It never hands out a
name that was reserved, nor one name twice. The numbers only grow.
-/

namespace Resumable

/-- The names that may not be handed out, and the next number to try. -/
structure NameSupply where
  stem : String
  next : Nat
  taken : NameSet

namespace NameSupply

/-- A supply from which nothing was taken. -/
def ofStem (stem : String) : NameSupply := ⟨stem, 0, ∅⟩

/-- The name with number `n`. -/
def candidate (supply : NameSupply) (n : Nat) : String := supply.stem ++ toString n

/-- The name will never be handed out. -/
def isTaken (supply : NameSupply) (name : String) : Bool := supply.taken.contains name

/-- Takes a name out of the supply. -/
def reserve (supply : NameSupply) (name : String) : NameSupply :=
  { supply with taken := supply.taken.insert name }

/-- Takes all names of a list out of the supply. -/
def reserveAll (supply : NameSupply) (names : List String) : NameSupply :=
  names.foldl reserve supply

/-- The first number from `n` on whose name is free, among the `tries` next ones. -/
def firstFree (supply : NameSupply) : Nat → Nat → Nat
  | 0, n => n
  | tries + 1, n => if supply.isTaken (supply.candidate n) then supply.firstFree tries (n + 1) else n

/-- Hands out the free name with the least number not yet tried. As no two numbers give one name,
one of any `taken.size + 1` of them is free. -/
def fresh (supply : NameSupply) : String × NameSupply :=
  let n := supply.firstFree supply.taken.size supply.next
  let name := supply.candidate n
  (name, { supply.reserve name with next := n + 1 })

/-- Takes a fresh name from the supply at hand. -/
def takeFresh : StateM NameSupply String := fun supply => supply.fresh

end NameSupply

end Resumable
