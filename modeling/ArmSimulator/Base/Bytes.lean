/-
Bytes: the numbers they make up in either byte order, and what a sequence of
writes leaves of a store.

A store is a function on indices.  A log of writes gives an index the last value
written there and leaves every index it does not mention, so two sequences of
overlapping writes of any widths can be compared through their logs.
-/
import Mathlib.Data.BitVec
import Mathlib.Data.Nat.Digits.Defs
import Mathlib.Logic.Function.Basic

namespace Bytes

/-! ## Numbers -/

/-- The bytes of a number, most significant first in big-endian order. -/
def order (big : Bool) (bytes : List (BitVec 8)) : List (BitVec 8) :=
  if big then bytes.reverse else bytes

/-- The number the bytes make up in the given byte order. -/
def number (big : Bool) (bytes : List (BitVec 8)) : Nat :=
  Nat.ofDigits 256 ((order big bytes).map BitVec.toNat)

def lowBytes : Nat → Nat → List (BitVec 8)
  | 0, _ => []
  | n + 1, v => BitVec.ofNat 8 v :: lowBytes n (v / 256)

/-- The `n` low bytes of a number, in the given byte order. -/
def split (big : Bool) (n v : Nat) : List (BitVec 8) := order big (lowBytes n v)

@[simp] theorem order_order (big : Bool) (bytes : List (BitVec 8)) :
    order big (order big bytes) = bytes := by
  cases big with
  | false => rfl
  | true => exact List.reverse_reverse bytes

theorem number_true (bytes : List (BitVec 8)) : number true bytes = number false bytes.reverse := rfl

theorem ofDigits_lowBytes (n v : Nat) :
    Nat.ofDigits 256 ((lowBytes n v).map BitVec.toNat) = v % 256 ^ n := by
  induction n generalizing v with
  | zero => rw [lowBytes, List.map_nil, Nat.ofDigits_nil, pow_zero, Nat.mod_one]
  | succ n ih =>
    have hdigit : (BitVec.ofNat 8 v).toNat = v % 256 := BitVec.toNat_ofNat v 8
    rw [lowBytes, List.map_cons, Nat.ofDigits_cons, ih, hdigit, pow_succ', Nat.mod_mul]

@[simp] theorem length_lowBytes (n v : Nat) : (lowBytes n v).length = n := by
  induction n generalizing v with
  | zero => rfl
  | succ n ih => rw [lowBytes, List.length_cons, ih]

@[simp] theorem length_split (big : Bool) (n v : Nat) : (split big n v).length = n := by
  cases big with
  | false => exact length_lowBytes n v
  | true => exact List.length_reverse.trans (length_lowBytes n v)

theorem number_split (big : Bool) (n v : Nat) : number big (split big n v) = v % 256 ^ n := by
  rw [number, split, order_order, ofDigits_lowBytes]

theorem lowBytes_ofDigits (bytes : List (BitVec 8)) :
    lowBytes bytes.length (Nat.ofDigits 256 (bytes.map BitVec.toNat)) = bytes := by
  induction bytes with
  | nil => rfl
  | cons b bytes ih =>
    have hb := b.isLt
    have hlow : BitVec.ofNat 8 (b.toNat + 256 * Nat.ofDigits 256 (bytes.map BitVec.toNat)) = b := by
      apply BitVec.eq_of_toNat_eq
      rw [BitVec.toNat_ofNat]
      omega
    have hhigh : (b.toNat + 256 * Nat.ofDigits 256 (bytes.map BitVec.toNat)) / 256 =
        Nat.ofDigits 256 (bytes.map BitVec.toNat) := by
      omega
    rw [List.map_cons, Nat.ofDigits_cons, List.length_cons, lowBytes, hlow, hhigh, ih]

theorem split_number (big : Bool) (bytes : List (BitVec 8)) :
    split big bytes.length (number big bytes) = bytes := by
  have hlength : (order big bytes).length = bytes.length := by
    cases big with
    | false => rfl
    | true => exact List.length_reverse
  rw [split, number, ← hlength, lowBytes_ofDigits, order_order]

/-! ## Stores -/

variable {ι β : Type} [DecidableEq ι]

def writeAll (f : ι → β) (log : List (ι × β)) : ι → β :=
  log.foldl (fun f e => Function.update f e.1 e.2) f

/-- The last value a log writes at an index. -/
def lastWritten (log : List (ι × β)) (i : ι) : Option β :=
  (log.findRev? fun e => e.1 = i).map Prod.snd

theorem writeAll_append (f : ι → β) (log log' : List (ι × β)) :
    writeAll f (log ++ log') = writeAll (writeAll f log) log' :=
  List.foldl_append

theorem lastWritten_cons (e : ι × β) (log : List (ι × β)) (i : ι) :
    lastWritten (e :: log) i =
      (lastWritten log i).or (if e.1 = i then some e.2 else none) := by
  rw [lastWritten, lastWritten, List.findRev?]
  cases h : log.findRev? fun e => e.1 = i with
  | some last => rfl
  | none =>
    by_cases he : e.1 = i
    · simp [he]
    · simp [he]

/-- After a log of writes an index holds the last value written there, or what it
held before. -/
theorem writeAll_apply (f : ι → β) (log : List (ι × β)) (i : ι) :
    writeAll f log i = (lastWritten log i).getD (f i) := by
  induction log generalizing f with
  | nil => rfl
  | cons e log ih =>
    have hstep : writeAll f (e :: log) = writeAll (Function.update f e.1 e.2) log := rfl
    rw [hstep, ih, lastWritten_cons]
    cases h : lastWritten log i with
    | some last => rfl
    | none =>
      by_cases he : e.1 = i
      · subst he
        simp
      · simp [he, Ne.symm he]

theorem writeAll_of_not_mem {f : ι → β} {log : List (ι × β)} {i : ι} (h : i ∉ log.map Prod.fst) :
    writeAll f log i = f i := by
  induction log generalizing f with
  | nil => rfl
  | cons e log ih =>
    rw [List.map_cons, List.mem_cons, not_or] at h
    have hstep : writeAll f (e :: log) = writeAll (Function.update f e.1 e.2) log := rfl
    rw [hstep, ih h.2, Function.update_of_ne h.1]

/-- A store that is laid out in another one: the writes to the places of a log are seen
through the layout as the log itself. -/
theorem writeAll_layout {κ : Type} [DecidableEq κ] {place : κ → ι}
    (hplace : Function.Injective place) (f : ι → β) (log : List (κ × β)) (k : κ) :
    writeAll f (log.map fun e => (place e.1, e.2)) (place k) =
      writeAll (fun k => f (place k)) log k := by
  induction log generalizing f with
  | nil => rfl
  | cons e log ih =>
    have hstep : (fun k => Function.update f (place e.1) e.2 (place k)) =
        Function.update (fun k => f (place k)) e.1 e.2 :=
      Function.update_comp_eq_of_injective f hplace e.1 e.2
    show writeAll (Function.update f (place e.1) e.2) (log.map _) (place k) = _
    rw [ih, hstep]
    rfl

/-- Values written at distinct indices are read back. -/
theorem map_writeAll_zip (f : ι → β) {indices : List ι} {values : List β}
    (hnodup : indices.Nodup) (hlength : indices.length = values.length) :
    indices.map (writeAll f (indices.zip values)) = values := by
  induction indices generalizing f values with
  | nil => exact (List.length_eq_zero_iff.mp hlength.symm).symm
  | cons i indices ih =>
    cases values with
    | nil => simp at hlength
    | cons v values =>
      obtain ⟨hi, hrest⟩ := List.nodup_cons.mp hnodup
      have hstep : writeAll f ((i :: indices).zip (v :: values)) =
          writeAll (Function.update f i v) (indices.zip values) := rfl
      have hlen : indices.length = values.length := by simpa using hlength
      have hfresh : i ∉ (indices.zip values).map Prod.fst := by
        rw [List.map_fst_zip (by omega)]
        exact hi
      rw [hstep, List.map_cons, writeAll_of_not_mem hfresh, Function.update_self, ih _ hrest hlen]

/-- What a run of commands leaves of one cell: the last value a command gave it, or what it
held before.  `I` is an invariant of the run that the commands may count on. -/
theorem foldl_cell {σ γ : Type} (step : σ → γ → σ) (I : σ → Prop) (cell : σ → β)
    (given : γ → Option β) (hkeep : ∀ s c, I s → I (step s c))
    (hcell : ∀ s c, I s → cell (step s c) = (given c).getD (cell s)) {s : σ} (hI : I s)
    (cs : List γ) :
    cell (cs.foldl step s) = ((cs.filterMap given).getLast?).getD (cell s) := by
  induction cs generalizing s with
  | nil => rfl
  | cons c cs ih =>
    rw [List.foldl_cons, ih (hkeep s c hI), hcell s c hI]
    cases hc : given c with
    | none => rw [List.filterMap_cons_none hc, Option.getD_none]
    | some b =>
      rw [List.filterMap_cons_some hc, List.getLast?_cons, Option.getD_some, Option.getD_some]

end Bytes
