/-
The table of the files whose debug messages are printed (debug.c).

`debuggedFiles` holds, for each index, the string the array points to.  What the
array holds above the fill count before it is written is left open: a state is
any such function.  Every access to the array is an event, so that an access
outside of it can be spoken of; an index of the lookup is an `int`.
-/
import ArmSimulator.Base.SortedTable
import ArmSimulator.Base.Traced
import Mathlib.Data.BitVec

namespace ArmSimulator
namespace Debug

/-- The characters of a C string, without the NUL that ends it. -/
structure Name where
  chars : List (BitVec 8)
  nonzero : ∀ c ∈ chars, c ≠ 0
deriving DecidableEq

instance : Ord Name := ⟨fun a b => compare a.chars b.chars⟩

/-- `strcmp`, of which the callers use only the sign.  The characters are compared
as unsigned ones. -/
def strcmp (a b : Name) : Ordering := compare a b

def maxFilesNumber : Nat := 64

structure Table where
  debuggedFiles : Nat → Name
  nbDebuggedFiles : Nat

inductive Event where
  | read (index : Int)
  | write (index : Nat)
deriving DecidableEq

abbrev Access := Traced Event Table

/-! ## Accesses -/

def filled : Access Nat := fun t => { value := t.nbDebuggedFiles, state := t, trace := [] }

def fileAt (index : Int) : Access Name := fun t =>
  { value := t.debuggedFiles index.toNat, state := t, trace := [.read index] }

def setFile (index : Nat) (name : Name) : Access Unit := fun t =>
  { value := ()
    state := { t with debuggedFiles := Function.update t.debuggedFiles index name }
    trace := [.write index] }

def setFilled (n : Nat) : Access Unit := fun t =>
  { value := (), state := { t with nbDebuggedFiles := n }, trace := [] }

theorem filled_bind {α : Type} (f : Nat → Access α) (t : Table) :
    (filled >>= f) t = f t.nbDebuggedFiles t := rfl

theorem fileAt_bind {α : Type} (index : Int) (f : Name → Access α) (t : Table) :
    (fileAt index >>= f) t =
      { f (t.debuggedFiles index.toNat) t with
        trace := .read index :: (f (t.debuggedFiles index.toNat) t).trace } := rfl

/-! ## Adding a file -/

/-- The loop that looks for the index of a new name, from `i` on.  The capacity
test ends it after at most `turns = maxFilesNumber - i` turns. -/
def findPosition (name : Name) : Nat → Nat → Access Nat
  | 0, i => pure i
  | turns + 1, i => do
    let n ← filled
    if i < n ∧ i < maxFilesNumber then
      let file ← fileAt i
      if strcmp file name = .lt then findPosition name turns (i + 1) else pure i
    else pure i

/-- The loop that moves the files from index `i` on by one place, from the last
one down. -/
def shiftFiles (i : Nat) : Nat → Access Unit
  | 0 => pure ()
  | j + 1 => do
    if j + 1 > i then
      let file ← fileAt j
      setFile (j + 1) file
      shiftFiles i j
    else pure ()

def addDebugTo (name : Name) : Access Unit := do
  let i ← findPosition name maxFilesNumber 0
  if i ≥ maxFilesNumber then pure ()
  else do
    let n ← filled
    shiftFiles i n
    setFile i name
    setFilled (n + 1)

/-- The calls made for the options of a command line, in their order. -/
def addDebugOptions : List Name → Access Unit
  | [] => pure ()
  | name :: rest => do
    addDebugTo name
    addDebugOptions rest

/-! ## Looking a file up -/

/-- The loop of the lookup between two bounds, and the comparison after it.
`none` says that the loop was still running after the given number of turns. -/
def searchFiles (name : Name) : Nat → Int → Int → Access (Option Nat)
  | 0, _, _ => pure none
  | turns + 1, lo, hi => do
    if lo < hi then
      let middle := (lo + hi).tdiv 2
      let file ← fileAt middle
      match strcmp file name with
      | .lt => searchFiles name turns (middle + 1) hi
      | .gt => searchFiles name turns lo (middle - 1)
      | .eq => pure (some 1)
    else if lo = hi then
      let file ← fileAt lo
      pure (some (if strcmp file name = .eq then 1 else 0))
    else pure (some 0)

/-- `__is_debugged`. -/
def isDebugged (turns : Nat) (name : Name) : Access (Option Nat) := do
  let n ← filled
  searchFiles name turns 0 (n - 1)

end Debug
end ArmSimulator
