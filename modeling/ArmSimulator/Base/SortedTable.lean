/-
Tables kept in order.

A table is the filled part of an array: its entries as a function of the index,
and their number.  An insertion moves the entries from some index on by one
place, and a binary search keeps two bounds between which every entry equal to
the key lies.  The bounds are integers: the upper one starts at `-1` in an empty
table and may come back to it.
-/
import Mathlib.Data.List.OfFn
import Mathlib.Data.List.Perm.Basic
import Mathlib.Order.Basic

namespace SortedTable

variable {α : Type} [Ord α]

/-- The first `n` entries are in order. -/
def Sorted (f : Nat → α) (n : Nat) : Prop :=
  ∀ i j, i ≤ j → j < n → (compare (f i) (f j)).isLE

def entries (f : Nat → α) (n : Nat) : List α := (List.range n).map f

/-- The table with `x` at index `i`, and the entries from `i` to the last one moved
up by one place. -/
def insertAt (f : Nat → α) (n i : Nat) (x : α) : Nat → α :=
  fun j => if j = i then x else if i < j ∧ j ≤ n then f (j - 1) else f j

/-- Where a new entry belongs: after those below it. -/
structure IsPosition (f : Nat → α) (n : Nat) (x : α) (i : Nat) : Prop where
  le : i ≤ n
  below : ∀ j, j < i → compare (f j) x = .lt
  above : i < n → compare (f i) x ≠ .lt

/-! ## Insertion -/

section Insertion

omit [Ord α]

theorem insertAt_of_lt (f : Nat → α) (n : Nat) (x : α) {i j : Nat} (h : j < i) :
    insertAt f n i x j = f j := by
  rw [insertAt, if_neg (by omega), if_neg (by omega)]

theorem insertAt_self (f : Nat → α) (n i : Nat) (x : α) : insertAt f n i x i = x := by
  rw [insertAt, if_pos rfl]

theorem insertAt_of_gt (f : Nat → α) {n : Nat} (x : α) {i j : Nat} (h : i < j) (hn : j ≤ n) :
    insertAt f n i x j = f (j - 1) := by
  rw [insertAt, if_neg (by omega), if_pos ⟨h, hn⟩]

theorem length_entries (f : Nat → α) (n : Nat) : (entries f n).length = n := by
  rw [entries, List.length_map, List.length_range]

theorem getElem_entries (f : Nat → α) {n j : Nat} (h : j < (entries f n).length) :
    (entries f n)[j] = f j := by
  simp only [entries, List.getElem_map, List.getElem_range]

theorem entries_insertAt (f : Nat → α) (x : α) {n i : Nat} (h : i ≤ n) :
    entries (insertAt f n i x) (n + 1) = (entries f n).insertIdx i x := by
  have hlen := length_entries f n
  refine List.ext_getElem ?_ fun j hj hj' => ?_
  · rw [List.length_insertIdx_of_le_length (by omega), hlen, length_entries]
  · rw [length_entries] at hj
    rw [List.getElem_insertIdx, getElem_entries]
    rcases Nat.lt_trichotomy j i with hji | rfl | hij
    · rw [insertAt_of_lt f n x hji, dif_pos hji, getElem_entries]
    · rw [insertAt_self, dif_neg (Nat.lt_irrefl j), dif_pos rfl]
    · rw [insertAt_of_gt f x hij (by omega), dif_neg (by omega), dif_neg (by omega),
        getElem_entries]

theorem perm_insertAt (f : Nat → α) (x : α) {n i : Nat} (h : i ≤ n) :
    (entries (insertAt f n i x) (n + 1)).Perm (x :: entries f n) := by
  rw [entries_insertAt f x h]
  exact List.perm_insertIdx x _ (by rw [length_entries]; exact h)

theorem mem_entries {f : Nat → α} {n : Nat} {x : α} : x ∈ entries f n ↔ ∃ i, i < n ∧ f i = x := by
  simp only [entries, List.mem_map, List.mem_range]

end Insertion

variable [Std.TransOrd α]

/-- The entries before the position are below the new one, and those from it on
are not. -/
theorem sorted_insertAt {f : Nat → α} {n i : Nat} {x : α} (hs : Sorted f n)
    (hp : IsPosition f n x i) : Sorted (insertAt f n i x) (n + 1) := by
  have habove : ∀ j, i ≤ j → j < n → (compare x (f j)).isLE := by
    intro j hij hj
    have hx : (compare x (f i)).isLE := by
      rw [← Std.OrientedCmp.isGE_iff_isLE, Ordering.isGE_iff_ne_lt]
      exact hp.above (by omega)
    exact Std.TransCmp.isLE_trans hx (hs i j hij hj)
  intro a b hab hb
  rcases Nat.lt_trichotomy b i with hbi | rfl | hbi
  · rw [insertAt_of_lt f n x hbi, insertAt_of_lt f n x (by omega)]
    have := hp.le
    exact hs a b hab (by omega)
  · rw [insertAt_self]
    rcases Nat.lt_or_ge a b with hlt | hge
    · rw [insertAt_of_lt f n x hlt, hp.below a hlt]
      rfl
    · rw [show a = b by omega, insertAt_self]
      exact Std.ReflOrd.isLE_rfl
  · rw [insertAt_of_gt f x hbi (by omega)]
    rcases Nat.lt_trichotomy a i with hai | rfl | hai
    · rw [insertAt_of_lt f n x hai]
      exact hs a (b - 1) (by omega) (by omega)
    · rw [insertAt_self]
      exact habove (b - 1) (by omega) (by omega)
    · rw [insertAt_of_gt f x hai (by omega)]
      exact hs (a - 1) (b - 1) (by omega) (by omega)

/-! ## Search -/

/-- Every entry equal to the key lies between the bounds. -/
def Between (f : Nat → α) (n : Nat) (x : α) (lo hi : Int) : Prop :=
  ∀ j : Nat, j < n → compare (f j) x = .eq → lo ≤ j ∧ j ≤ hi

omit [Std.TransOrd α] in
theorem between_all (f : Nat → α) (n : Nat) (x : α) : Between f n x 0 (n - 1) := by
  intro j hj _
  omega

theorem between_of_lt {f : Nat → α} {n m : Nat} {x : α} {lo hi : Int} (hs : Sorted f n)
    (hb : Between f n x lo hi) (hm : m < n) (hlt : compare (f m) x = .lt) :
    Between f n x (m + 1) hi := by
  intro j hj heq
  refine ⟨?_, (hb j hj heq).2⟩
  by_contra hle
  have hjm : (compare (f j) (f m)).isLE := hs j m (by omega) hm
  rw [Std.TransCmp.lt_of_isLE_of_lt hjm hlt] at heq
  cases heq

theorem between_of_gt {f : Nat → α} {n m : Nat} {x : α} {lo hi : Int} (hs : Sorted f n)
    (hb : Between f n x lo hi) (hgt : compare (f m) x = .gt) :
    Between f n x lo (m - 1) := by
  intro j hj heq
  refine ⟨(hb j hj heq).1, ?_⟩
  by_contra hle
  have hmj : (compare (f m) (f j)).isLE := hs m j (by omega) hj
  have hmx : (compare (f m) x).isLE := Std.TransCmp.isLE_trans hmj (by rw [heq]; rfl)
  rw [hgt] at hmx
  cases hmx

end SortedTable
