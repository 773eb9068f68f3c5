/-
The table of debugged files is a sorted table.

As long as it is not full, `addDebugTo` inserts the name at its position, so the
filled part stays sorted and holds the added names.  A full table ignores a name
above all of its files; for any other name the capacity test on the position lets
the insertion through, and the last file is moved past the end of the array.  The
lookup keeps two bounds around every file of the given name; it ends because each
turn of its loop brings them closer, and it reads nothing outside of the filled
part.
-/
import ArmSimulator.Model.Debug

namespace ArmSimulator
namespace Debug

open SortedTable

/-! ## The order of names -/

instance : Std.TransOrd Name where
  eq_swap {a b} := (Std.OrientedOrd.eq_swap : compare a.chars b.chars = _)
  isLE_trans {_ b _} hab hbc := Std.TransCmp.isLE_trans (b := b.chars) hab hbc

instance : Std.LawfulEqOrd Name where
  eq_of_compare {a b} h := by
    have hchars : a.chars = b.chars := Std.LawfulEqOrd.eq_of_compare h
    cases a
    cases b
    cases hchars
    rfl

theorem strcmp_eq_iff {a b : Name} : strcmp a b = .eq ↔ a = b :=
  Std.LawfulEqOrd.compare_eq_iff_eq

/-! ## Adding a file -/

theorem findPosition_isPosition (t : Table) (name : Name) (hn : t.nbDebuggedFiles ≤ maxFilesNumber)
    (turns i : Nat) (hturns : turns + i = maxFilesNumber) (hi : i ≤ t.nbDebuggedFiles)
    (hbelow : ∀ j, j < i → compare (t.debuggedFiles j) name = .lt) :
    IsPosition t.debuggedFiles t.nbDebuggedFiles name (findPosition name turns i t).value ∧
      (findPosition name turns i t).state = t := by
  induction turns generalizing i with
  | zero =>
    refine ⟨⟨hi, hbelow, fun h => ?_⟩, rfl⟩
    have : i < t.nbDebuggedFiles := h
    omega
  | succ turns ih =>
    rw [findPosition, filled_bind]
    by_cases hlt : i < t.nbDebuggedFiles ∧ i < maxFilesNumber
    · rw [if_pos hlt, fileAt_bind, Int.toNat_natCast, strcmp]
      by_cases hcmp : compare (t.debuggedFiles i) name = .lt
      · rw [if_pos hcmp]
        refine ih (i + 1) (by omega) (by omega) fun j hj => ?_
        rcases Nat.lt_succ_iff_lt_or_eq.mp hj with hj | rfl
        · exact hbelow j hj
        · exact hcmp
      · rw [if_neg hcmp]
        exact ⟨⟨hi, hbelow, fun _ => hcmp⟩, rfl⟩
    · rw [if_neg hlt]
      refine ⟨⟨hi, hbelow, fun h => ?_⟩, rfl⟩
      have : i < t.nbDebuggedFiles := h
      omega

theorem shiftFiles_state (i j : Nat) (t : Table) :
    (shiftFiles i j t).state =
      { t with debuggedFiles := fun k =>
          if i < k ∧ k ≤ j then t.debuggedFiles (k - 1) else t.debuggedFiles k } := by
  induction j generalizing t with
  | zero =>
    have hfiles : (fun k => if i < k ∧ k ≤ 0 then t.debuggedFiles (k - 1) else t.debuggedFiles k) =
        t.debuggedFiles := funext fun k => if_neg (by omega)
    rw [hfiles]
    rfl
  | succ j ih =>
    by_cases hj : j + 1 > i
    · simp only [shiftFiles, if_pos hj, Traced.bind_state, fileAt, setFile, ih, Int.toNat_natCast]
      congr 1
      funext k
      rcases Nat.lt_trichotomy k (j + 1) with hk | rfl | hk
      · rw [Function.update_of_ne (by omega), Function.update_of_ne (by omega)]
        by_cases hik : i < k
        · rw [if_pos ⟨hik, by omega⟩, if_pos ⟨hik, by omega⟩]
        · rw [if_neg (by omega), if_neg (by omega)]
      · rw [if_neg (by omega), Function.update_self, if_pos ⟨hj, by omega⟩, Nat.add_sub_cancel]
      · rw [if_neg (by omega), Function.update_of_ne (by omega), if_neg (by omega)]
    · have hfiles : (fun k => if i < k ∧ k ≤ j + 1 then t.debuggedFiles (k - 1)
          else t.debuggedFiles k) = t.debuggedFiles := funext fun k => if_neg (by omega)
      rw [hfiles, shiftFiles, if_neg hj]
      rfl

theorem findPosition_writes (name : Name) (turns i : Nat) (t : Table) (index : Nat) :
    .write index ∉ (findPosition name turns i t).trace := by
  induction turns generalizing i with
  | zero => exact List.not_mem_nil
  | succ turns ih =>
    rw [findPosition, filled_bind]
    by_cases hlt : i < t.nbDebuggedFiles ∧ i < maxFilesNumber
    · rw [if_pos hlt, fileAt_bind, List.mem_cons, not_or]
      refine ⟨fun h => Event.noConfusion h, ?_⟩
      by_cases hcmp : strcmp (t.debuggedFiles (i : Int).toNat) name = .lt
      · rw [if_pos hcmp]
        exact ih (i + 1)
      · rw [if_neg hcmp]
        exact List.not_mem_nil
    · rw [if_neg hlt]
      exact List.not_mem_nil

theorem shiftFiles_writes (i j : Nat) (t : Table) (index : Nat) :
    .write index ∈ (shiftFiles i j t).trace ↔ i < index ∧ index ≤ j := by
  induction j generalizing t with
  | zero =>
    refine ⟨fun h => absurd h List.not_mem_nil, fun h => ?_⟩
    omega
  | succ j ih =>
    by_cases hj : j + 1 > i
    · simp only [shiftFiles, if_pos hj, Traced.bind_trace, fileAt, setFile, List.mem_append,
        List.mem_singleton, ih, Event.write.injEq, reduceCtorEq, false_or]
      omega
    · rw [shiftFiles, if_neg hj]
      refine ⟨fun h => absurd h List.not_mem_nil, fun h => ?_⟩
      omega

/-- One call on a table that is at most full.  The capacity test is on the
position, so a full table is left alone only if the position is past its end. -/
theorem addDebugTo_cases (t : Table) (name : Name) (hn : t.nbDebuggedFiles ≤ maxFilesNumber) :
    ∃ i, IsPosition t.debuggedFiles t.nbDebuggedFiles name i ∧
      ((i < maxFilesNumber ∧
        (addDebugTo name t).state =
          { debuggedFiles := insertAt t.debuggedFiles t.nbDebuggedFiles i name
            nbDebuggedFiles := t.nbDebuggedFiles + 1 } ∧
        ∀ index, .write index ∈ (addDebugTo name t).trace ↔
          i ≤ index ∧ index ≤ t.nbDebuggedFiles) ∨
      (i = maxFilesNumber ∧ (addDebugTo name t).state = t ∧
        ∀ index, .write index ∉ (addDebugTo name t).trace)) := by
  obtain ⟨hpos, hstate⟩ := findPosition_isPosition t name hn maxFilesNumber 0 rfl
    (Nat.zero_le _) (fun j hj => absurd hj (Nat.not_lt_zero j))
  have hreads := findPosition_writes name maxFilesNumber 0 t
  have hle := hpos.le
  refine ⟨_, hpos, ?_⟩
  by_cases hfull : (findPosition name maxFilesNumber 0 t).value ≥ maxFilesNumber
  · refine Or.inr ⟨by omega, ?_, fun index => ?_⟩
    · simp only [addDebugTo, Traced.bind_state, if_pos hfull, hstate, Traced.pure_apply]
    · simp only [addDebugTo, Traced.bind_trace, if_pos hfull, Traced.pure_apply, List.append_nil]
      exact hreads index
  · refine Or.inl ⟨by omega, ?_, fun index => ?_⟩
    · simp only [addDebugTo, Traced.bind_state, if_neg hfull, hstate, filled, shiftFiles_state,
        setFile, setFilled]
      congr 1
      funext k
      rw [insertAt, Function.update_apply]
    · simp only [addDebugTo, Traced.bind_trace, if_neg hfull, hstate, filled, setFile, setFilled,
        List.mem_append, hreads index, shiftFiles_writes, List.mem_singleton, Event.write.injEq,
        List.not_mem_nil, false_or, or_false]
      omega

theorem addDebugTo_state (t : Table) (name : Name) (hn : t.nbDebuggedFiles < maxFilesNumber) :
    ∃ i, IsPosition t.debuggedFiles t.nbDebuggedFiles name i ∧
      (addDebugTo name t).state =
        { debuggedFiles := insertAt t.debuggedFiles t.nbDebuggedFiles i name
          nbDebuggedFiles := t.nbDebuggedFiles + 1 } := by
  obtain ⟨i, hpos, ⟨-, hstate, -⟩ | ⟨hi, -⟩⟩ := addDebugTo_cases t name (by omega)
  · exact ⟨i, hpos, hstate⟩
  · have := hpos.le
    omega

/-- The filled part of the table is sorted and holds the added names, in some
order. -/
structure Holds (t : Table) (added : List Name) : Prop where
  count : t.nbDebuggedFiles = added.length
  sorted : Sorted t.debuggedFiles t.nbDebuggedFiles
  perm : (entries t.debuggedFiles t.nbDebuggedFiles).Perm added

theorem addDebugTo_holds {t : Table} {added : List Name} (h : Holds t added)
    (hlen : added.length < maxFilesNumber) (name : Name) :
    Holds (addDebugTo name t).state (name :: added) := by
  obtain ⟨i, hpos, hstate⟩ := addDebugTo_state t name (by rw [h.count]; exact hlen)
  rw [hstate]
  exact ⟨congrArg (· + 1) h.count, sorted_insertAt h.sorted hpos,
    (perm_insertAt _ name hpos.le).trans (h.perm.cons name)⟩

theorem addDebugOptions_holds (names : List Name) {t : Table} {added : List Name}
    (h : Holds t added) (hlen : names.length + added.length ≤ maxFilesNumber) :
    Holds (addDebugOptions names t).state (names.reverse ++ added) := by
  induction names generalizing t added with
  | nil => exact h
  | cons name rest ih =>
    rw [List.length_cons] at hlen
    have hrest : rest.length + (name :: added).length ≤ maxFilesNumber := by
      rw [List.length_cons]
      omega
    rw [List.reverse_cons, List.append_assoc]
    exact ih (addDebugTo_holds h (by omega) name) hrest

theorem addDebugOptions_concat (names : List Name) (name : Name) (t : Table) :
    (addDebugOptions (names ++ [name]) t).state =
        (addDebugTo name (addDebugOptions names t).state).state ∧
      (addDebugOptions (names ++ [name]) t).trace =
        (addDebugOptions names t).trace ++
          (addDebugTo name (addDebugOptions names t).state).trace := by
  induction names generalizing t with
  | nil => exact ⟨rfl, List.append_nil _⟩
  | cons first rest ih =>
    obtain ⟨hstate, htrace⟩ := ih (addDebugTo first t).state
    refine ⟨hstate, ?_⟩
    rw [List.cons_append, addDebugOptions, addDebugOptions, Traced.bind_trace, Traced.bind_trace,
      htrace, List.append_assoc]
    rfl

theorem holds_nil (files : Nat → Name) :
    Holds { debuggedFiles := files, nbDebuggedFiles := 0 } [] :=
  ⟨rfl, fun _ j _ hj => absurd hj (Nat.not_lt_zero j), List.Perm.nil⟩

theorem addDebugOptions_holds_reverse (files : Nat → Name) {names : List Name}
    (hlen : names.length ≤ maxFilesNumber) :
    Holds (addDebugOptions names { debuggedFiles := files, nbDebuggedFiles := 0 }).state
      names.reverse := by
  have h := addDebugOptions_holds names (holds_nil files) hlen
  rw [List.append_nil] at h
  exact h

/-! ## The capacity of the table -/

/-- No call writes past the end of the array, and the fill count is within the
capacity before the first call and after each one. -/
structure KeepsCapacity (names : List Name) (t : Table) : Prop where
  writes : ∀ index, .write index ∈ (addDebugOptions names t).trace → index < maxFilesNumber
  count : ∀ k, (addDebugOptions (names.take k) t).state.nbDebuggedFiles ≤ maxFilesNumber

theorem keepsCapacity_nil {t : Table} :
    KeepsCapacity [] t ↔ t.nbDebuggedFiles ≤ maxFilesNumber := by
  refine ⟨fun h => h.count 0, fun h => ⟨fun _ hw => absurd hw List.not_mem_nil, fun k => ?_⟩⟩
  rw [List.take_nil]
  exact h

theorem keepsCapacity_cons {name : Name} {rest : List Name} {t : Table} :
    KeepsCapacity (name :: rest) t ↔
      t.nbDebuggedFiles ≤ maxFilesNumber ∧
        (∀ index, .write index ∈ (addDebugTo name t).trace → index < maxFilesNumber) ∧
        KeepsCapacity rest (addDebugTo name t).state := by
  constructor
  · intro h
    refine ⟨h.count 0, fun index hw => ?_, fun index hw => ?_, fun k => h.count (k + 1)⟩
    · exact h.writes index (List.mem_append_left _ hw)
    · exact h.writes index (List.mem_append_right _ hw)
  · rintro ⟨hcount, hwrites, hrest⟩
    refine ⟨fun index hw => ?_, fun k => ?_⟩
    · rcases List.mem_append.mp hw with hw | hw
      · exact hwrites index hw
      · exact hrest.writes index hw
    · cases k with
      | zero => exact hcount
      | succ k => exact hrest.count k

/-- The first names go into free places, the last of them into the last place at
most. -/
theorem keepsCapacity_append (first rest : List Name) {t : Table} {added : List Name}
    (h : Holds t added) (hlen : first.length + added.length ≤ maxFilesNumber) :
    KeepsCapacity (first ++ rest) t ↔ KeepsCapacity rest (addDebugOptions first t).state := by
  induction first generalizing t added with
  | nil => exact Iff.rfl
  | cons name first ih =>
    rw [List.length_cons] at hlen
    have hcount := h.count
    have hwrites : ∀ index, .write index ∈ (addDebugTo name t).trace → index < maxFilesNumber := by
      intro index hw
      obtain ⟨i, -, ⟨-, -, hall⟩ | ⟨-, -, hnone⟩⟩ := addDebugTo_cases t name (by omega)
      · have := (hall index).mp hw
        omega
      · exact absurd hw (hnone index)
    have hfirst : first.length + (name :: added).length ≤ maxFilesNumber := by
      rw [List.length_cons]
      omega
    have hih := ih (addDebugTo_holds h (by omega) name) hfirst
    rw [List.cons_append, keepsCapacity_cons]
    exact ⟨fun hk => hih.mp hk.2.2, fun hk => ⟨by omega, hwrites, hih.mpr hk⟩⟩

/-- A full table ignores a name above all of its files.  Any other name is
inserted in front of some file, and the last one is moved past the end. -/
theorem addDebugTo_full {t : Table} {added : List Name} (h : Holds t added)
    (hfull : added.length = maxFilesNumber) (name : Name) :
    ((∀ file ∈ added, strcmp file name = .lt) ∧ (addDebugTo name t).state = t ∧
        ∀ index, .write index ∉ (addDebugTo name t).trace) ∨
      ((∃ file ∈ added, strcmp file name ≠ .lt) ∧
        .write maxFilesNumber ∈ (addDebugTo name t).trace ∧
        (addDebugTo name t).state.nbDebuggedFiles = maxFilesNumber + 1) := by
  have hcount : t.nbDebuggedFiles = maxFilesNumber := h.count.trans hfull
  have hmem : ∀ file, file ∈ added ↔ ∃ j, j < t.nbDebuggedFiles ∧ t.debuggedFiles j = file := by
    intro file
    rw [← h.perm.mem_iff, mem_entries]
  obtain ⟨i, hpos, ⟨hi, hstate, hwrites⟩ | ⟨rfl, hstate, hwrites⟩⟩ :=
    addDebugTo_cases t name (by omega)
  · refine Or.inr ⟨⟨t.debuggedFiles i, ?_, hpos.above (by omega)⟩, ?_, ?_⟩
    · exact (hmem _).mpr ⟨i, by omega, rfl⟩
    · exact (hwrites maxFilesNumber).mpr (by omega)
    · rw [hstate, hcount]
  · refine Or.inl ⟨fun file hfile => ?_, hstate, hwrites⟩
    obtain ⟨j, hj, rfl⟩ := (hmem file).mp hfile
    exact hpos.below j (by omega)

/-- Induction on the calls: the first one that is not ignored breaks the bound. -/
theorem keepsCapacity_full {t : Table} {added : List Name} (h : Holds t added)
    (hfull : added.length = maxFilesNumber) (rest : List Name) :
    KeepsCapacity rest t ↔ ∀ name ∈ rest, ∀ file ∈ added, strcmp file name = .lt := by
  have hcount : t.nbDebuggedFiles = maxFilesNumber := h.count.trans hfull
  induction rest with
  | nil =>
    rw [keepsCapacity_nil]
    exact ⟨fun _ name hname => absurd hname List.not_mem_nil, fun _ => by omega⟩
  | cons name rest ih =>
    rw [keepsCapacity_cons, List.forall_mem_cons]
    rcases addDebugTo_full h hfull name with ⟨habove, hstate, hwrites⟩ | ⟨hnot, hwrite, -⟩
    · have hrest : KeepsCapacity rest (addDebugTo name t).state ↔
          ∀ name ∈ rest, ∀ file ∈ added, strcmp file name = .lt := by
        rw [hstate]
        exact ih
      refine ⟨fun hk => ⟨habove, hrest.mp hk.2.2⟩, fun hk => ⟨by omega, fun index hw => ?_, ?_⟩⟩
      · exact absurd hw (hwrites index)
      · exact hrest.mpr hk.2
    · obtain ⟨file, hfile, hcmp⟩ := hnot
      refine ⟨fun hk => ?_, fun hk => absurd (hk.1 file hfile) hcmp⟩
      exact absurd (hk.2.1 _ hwrite) (Nat.lt_irrefl _)

/-- Whatever the array holds at first, a run of calls stays within the capacity
exactly if each name after the first 64 is above all of those. -/
theorem keepsCapacity_iff (files : Nat → Name) (names : List Name) :
    KeepsCapacity names { debuggedFiles := files, nbDebuggedFiles := 0 } ↔
      ∀ name ∈ names.drop maxFilesNumber, ∀ file ∈ names.take maxFilesNumber,
        strcmp file name = .lt := by
  have hlen : (names.take maxFilesNumber).length ≤ maxFilesNumber :=
    List.length_take_le maxFilesNumber names
  have hholds := addDebugOptions_holds_reverse files hlen
  have happend := keepsCapacity_append _ (names.drop maxFilesNumber) (holds_nil files) hlen
  rw [List.take_append_drop] at happend
  rw [happend]
  rcases Nat.lt_or_ge maxFilesNumber names.length with hlt | hge
  · have hfull : (names.take maxFilesNumber).reverse.length = maxFilesNumber := by
      rw [List.length_reverse, List.length_take]
      omega
    rw [keepsCapacity_full hholds hfull]
    simp only [List.mem_reverse]
  · rw [List.drop_eq_nil_of_le hge, keepsCapacity_nil, hholds.count, List.length_reverse]
    exact ⟨fun _ name hname => absurd hname List.not_mem_nil, fun _ => hlen⟩

/-- The same name 65 times: the last call moves the last file past the end. -/
theorem keepsCapacity_replicate :
    let a : Name := ⟨[97], by decide⟩
    let t : Table := { debuggedFiles := fun _ => a, nbDebuggedFiles := 0 }
    let names := List.replicate (maxFilesNumber + 1) a
    .write maxFilesNumber ∈ (addDebugOptions names t).trace ∧
      (addDebugOptions names t).state.nbDebuggedFiles = maxFilesNumber + 1 ∧
      ¬ KeepsCapacity names t := by
  intro a t names
  have hlen : (List.replicate maxFilesNumber a).length ≤ maxFilesNumber := by
    rw [List.length_replicate]
  have hholds := addDebugOptions_holds_reverse (fun _ => a) hlen
  rw [List.reverse_replicate] at hholds
  have hnames : names = List.replicate maxFilesNumber a ++ [a] := List.replicate_succ'
  obtain ⟨hstate, htrace⟩ := addDebugOptions_concat (List.replicate maxFilesNumber a) a t
  rw [← hnames] at hstate htrace
  rcases addDebugTo_full hholds List.length_replicate a with ⟨habove, -⟩ | ⟨-, hlast, hcount⟩
  · have hmem : a ∈ List.replicate maxFilesNumber a := List.mem_replicate.mpr ⟨by decide, rfl⟩
    exact absurd (habove a hmem) (by decide)
  · have hwrite : .write maxFilesNumber ∈ (addDebugOptions names t).trace := by
      rw [htrace]
      exact List.mem_append_right _ hlast
    refine ⟨hwrite, by rw [hstate, hcount], fun h => ?_⟩
    exact absurd (h.writes _ hwrite) (Nat.lt_irrefl _)

/-! ## Looking a file up -/

/-- The lookup ends with the right answer, leaves the table alone and reads only
the filled part. -/
structure Answers (t : Table) (name : Name) (outcome : Outcome Event Table (Option Nat)) : Prop where
  value : outcome.value =
    some (if name ∈ entries t.debuggedFiles t.nbDebuggedFiles then 1 else 0)
  state : outcome.state = t
  reads : ∀ e ∈ outcome.trace, ∃ i : Nat, i < t.nbDebuggedFiles ∧ e = .read i

theorem Answers.cons_read {t : Table} {name : Name} {outcome : Outcome Event Table (Option Nat)}
    (h : Answers t name outcome) {i : Nat} (hi : i < t.nbDebuggedFiles) :
    Answers t name { outcome with trace := .read i :: outcome.trace } := by
  refine ⟨h.value, h.state, fun e he => ?_⟩
  rcases List.mem_cons.mp he with rfl | he
  · exact ⟨i, hi, rfl⟩
  · exact h.reads e he

theorem mem_iff_of_between_self {t : Table} {name : Name} {i : Nat}
    (hb : Between t.debuggedFiles t.nbDebuggedFiles name i i) (hi : i < t.nbDebuggedFiles) :
    name ∈ entries t.debuggedFiles t.nbDebuggedFiles ↔ strcmp (t.debuggedFiles i) name = .eq := by
  rw [mem_entries]
  refine ⟨fun ⟨j, hj, hname⟩ => ?_, fun h => ⟨i, hi, strcmp_eq_iff.mp h⟩⟩
  have hbounds := hb j hj (strcmp_eq_iff.mpr hname)
  rw [show i = j by omega]
  exact strcmp_eq_iff.mpr hname

/-- Induction on the number of turns; each turn of the loop leaves fewer indices
between the bounds. -/
theorem searchFiles_answers {t : Table} (hs : Sorted t.debuggedFiles t.nbDebuggedFiles)
    (name : Name) (turns : Nat) (lo hi : Int) (hlo : 0 ≤ lo) (hhi : hi < t.nbDebuggedFiles)
    (hpos : 0 < turns) (hturns : hi - lo < turns)
    (hb : Between t.debuggedFiles t.nbDebuggedFiles name lo hi) :
    Answers t name (searchFiles name turns lo hi t) := by
  induction turns generalizing lo hi with
  | zero => exact absurd hpos (Nat.lt_irrefl 0)
  | succ turns ih =>
    rw [searchFiles]
    by_cases hlt : lo < hi
    · rw [if_pos hlt]
      obtain ⟨middle, hmiddle⟩ : ∃ middle : Nat, (lo + hi).tdiv 2 = middle := by
        refine ⟨((lo + hi) / 2).toNat, ?_⟩
        rw [Int.tdiv_eq_ediv_of_nonneg (by omega)]
        omega
      have hbounds : lo ≤ middle ∧ middle < hi := by
        rw [Int.tdiv_eq_ediv_of_nonneg (by omega)] at hmiddle
        omega
      have hfilled : middle < t.nbDebuggedFiles := by omega
      rw [hmiddle, fileAt_bind, Int.toNat_natCast]
      refine Answers.cons_read ?_ hfilled
      cases hcmp : strcmp (t.debuggedFiles middle) name with
      | lt =>
        exact ih (middle + 1) hi (by omega) hhi (by omega) (by omega)
          (between_of_lt hs hb hfilled hcmp)
      | gt =>
        exact ih lo (middle - 1) hlo (by omega) (by omega) (by omega)
          (between_of_gt hs hb hcmp)
      | eq =>
        have hmem : name ∈ entries t.debuggedFiles t.nbDebuggedFiles :=
          mem_entries.mpr ⟨middle, hfilled, strcmp_eq_iff.mp hcmp⟩
        refine ⟨?_, rfl, fun e he => absurd he List.not_mem_nil⟩
        rw [if_pos hmem]
        rfl
    · rw [if_neg hlt]
      by_cases heq : lo = hi
      · obtain ⟨i, rfl⟩ := Int.eq_ofNat_of_zero_le hlo
        subst heq
        rw [if_pos rfl, fileAt_bind, Int.toNat_natCast]
        have hi : i < t.nbDebuggedFiles := by omega
        refine Answers.cons_read ?_ hi
        refine ⟨?_, rfl, fun e he => absurd he List.not_mem_nil⟩
        simp only [mem_iff_of_between_self hb hi]
        rfl
      · rw [if_neg heq]
        have hmem : name ∉ entries t.debuggedFiles t.nbDebuggedFiles := by
          rw [mem_entries]
          rintro ⟨j, hj, hname⟩
          have hbounds := hb j hj (strcmp_eq_iff.mpr hname)
          omega
        refine ⟨?_, rfl, fun e he => absurd he List.not_mem_nil⟩
        rw [if_neg hmem]
        rfl

theorem isDebugged_answers {t : Table} (hs : Sorted t.debuggedFiles t.nbDebuggedFiles)
    (name : Name) {turns : Nat} (hturns : t.nbDebuggedFiles < turns) :
    Answers t name (isDebugged turns name t) := by
  rw [isDebugged, filled_bind]
  exact searchFiles_answers hs name turns 0 (t.nbDebuggedFiles - 1) (by omega) (by omega)
    (by omega) (by omega) (between_all _ _ name)

/-- Whatever the array holds at first, after at most 64 calls its filled part is
sorted and holds the added names, and the lookup of any name ends, reads only the
filled part and returns 1 exactly for an added name. -/
theorem isDebugged_exact (files : Nat → Name) (names : List Name)
    (hlen : names.length ≤ maxFilesNumber) :
    let t := (addDebugOptions names { debuggedFiles := files, nbDebuggedFiles := 0 }).state
    t.nbDebuggedFiles = names.length ∧
      Sorted t.debuggedFiles t.nbDebuggedFiles ∧
      (entries t.debuggedFiles t.nbDebuggedFiles).Perm names ∧
      ∀ name turns, t.nbDebuggedFiles < turns →
        (isDebugged turns name t).value = some (if name ∈ names then 1 else 0) ∧
          (isDebugged turns name t).state = t ∧
          ∀ e ∈ (isDebugged turns name t).trace,
            ∃ i : Nat, i < t.nbDebuggedFiles ∧ e = .read i := by
  intro t
  have h : Holds t names.reverse := addDebugOptions_holds_reverse files hlen
  have hperm := h.perm.trans names.reverse_perm
  refine ⟨by rw [h.count, List.length_reverse], h.sorted, hperm, fun name turns hturns => ?_⟩
  have hanswers := isDebugged_answers h.sorted name hturns
  refine ⟨?_, hanswers.state, hanswers.reads⟩
  rw [hanswers.value]
  simp only [hperm.mem_iff]

/-- Four calls, two of them with the same name, and a lookup of the last file. -/
theorem isDebugged_exact_duplicate :
    let a : Name := ⟨[97], by decide⟩
    let c : Name := ⟨[99], by decide⟩
    let t := (addDebugOptions [c, a, ⟨[98], by decide⟩, a]
      { debuggedFiles := fun _ => a, nbDebuggedFiles := 0 }).state
    t.nbDebuggedFiles = 4 ∧ (isDebugged 5 c t).value = some 1 := by
  intro a c t
  obtain ⟨hcount, -, -, hanswers⟩ :=
    isDebugged_exact (fun _ => a) [c, a, ⟨[98], by decide⟩, a] (by decide)
  have hcount' : t.nbDebuggedFiles = 4 := hcount
  refine ⟨hcount', ?_⟩
  rw [(hanswers c 5 (by rw [hcount]; decide)).1, if_pos List.mem_cons_self]

end Debug
end ArmSimulator
