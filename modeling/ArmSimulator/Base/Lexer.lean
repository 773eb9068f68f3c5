/-
Longest-match lexers.

A rule makes a token of the texts it matches.  A lexer takes the longest prefix of its
input that some rule matches, gives it to the first rule that does, and goes on behind
it.

If a character can only stand at the start of a matched text, no token reaches across
an occurrence of it, so the input can be cut there: what comes before it is lexed as if
the input ended.
-/
import Mathlib.Data.List.Basic

namespace Lexer

variable {χ τ : Type}

/-- The token of the first rule that matches the whole text. -/
def firstMatch (rules : List (List χ → Option τ)) (text : List χ) : Option τ :=
  rules.findSome? fun rule => rule text

/-- The longest of the first `n` prefixes that a rule matches, by its length, with its
token. -/
def longestMatch (rules : List (List χ → Option τ)) (input : List χ) : Nat → Option (Nat × τ)
  | 0 => none
  | n + 1 =>
    match firstMatch rules (input.take (n + 1)) with
    | some token => some (n + 1, token)
    | none => longestMatch rules input n

def lexUpTo (rules : List (List χ → Option τ)) : Nat → List χ → List τ
  | 0, _ => []
  | fuel + 1, input =>
    match longestMatch rules input input.length with
    | none => []
    | some (n, token) => token :: lexUpTo rules fuel (input.drop n)

/-- Every token takes a character at least, so the input's length is fuel enough. -/
def lex (rules : List (List χ → Option τ)) (input : List χ) : List τ :=
  lexUpTo rules input.length input

variable {rules : List (List χ → Option τ)}

theorem longestMatch_bounds {input : List χ} {m n : Nat} {token : τ}
    (h : longestMatch rules input m = some (n, token)) : 0 < n ∧ n ≤ m := by
  induction m with
  | zero => cases h
  | succ m ih =>
    unfold longestMatch at h
    split at h
    · cases h
      omega
    · have := ih h
      omega

theorem longestMatch_congr {input input' : List χ} {n : Nat}
    (h : ∀ m, m ≤ n → input.take m = input'.take m) :
    longestMatch rules input n = longestMatch rules input' n := by
  induction n with
  | zero => rfl
  | succ n ih =>
    unfold longestMatch
    rw [h (n + 1) (Nat.le_refl _), ih fun m hm => h m (by omega)]

/-! ## Fuel -/

theorem lexUpTo_fuel (m n : Nat) {input : List χ} (hm : input.length ≤ m)
    (hn : input.length ≤ n) : lexUpTo rules m input = lexUpTo rules n input := by
  induction m generalizing n input with
  | zero =>
    rw [List.length_eq_zero_iff.mp (Nat.le_zero.mp hm)]
    cases n <;> rfl
  | succ m ih =>
    cases n with
    | zero =>
      rw [List.length_eq_zero_iff.mp (Nat.le_zero.mp hn)]
      rfl
    | succ n =>
      unfold lexUpTo
      cases hlongest : longestMatch rules input input.length with
      | none => rfl
      | some found =>
        have hfound := longestMatch_bounds hlongest
        have hdrop : (input.drop found.1).length = input.length - found.1 := List.length_drop
        simp only
        rw [ih n (by omega) (by omega)]

@[simp] theorem lex_nil : lex rules [] = [] := rfl

theorem lex_of_longestMatch {input : List χ} {n : Nat} {token : τ}
    (h : longestMatch rules input input.length = some (n, token)) :
    lex rules input = token :: lex rules (input.drop n) := by
  have hn := longestMatch_bounds h
  have hdrop : (input.drop n).length = input.length - n := List.length_drop
  obtain ⟨fuel, hfuel⟩ : ∃ fuel, input.length = fuel + 1 := ⟨input.length - 1, by omega⟩
  unfold lex
  rw [hfuel, lexUpTo, h]
  simp only
  rw [lexUpTo_fuel fuel _ (by omega) (Nat.le_refl _)]

/-! ## Whole texts and cuts -/

theorem lex_of_firstMatch {text : List χ} {token : τ} (hne : text ≠ [])
    (h : firstMatch rules text = some token) : lex rules text = [token] := by
  obtain ⟨n, hn⟩ : ∃ n, text.length = n + 1 :=
    ⟨text.length - 1, by have := List.length_pos_iff.mpr hne; omega⟩
  have hlongest : longestMatch rules text text.length = some (text.length, token) := by
    have htake : text.take (n + 1) = text := List.take_of_length_le (by omega)
    rw [hn, longestMatch, htake, h]
  rw [lex_of_longestMatch hlongest, List.drop_length, lex_nil]

/-- A matched text that no more input can make longer is a token of its own, whatever
comes behind it. -/
theorem lex_append_of_maximal {text : List χ} {token : τ} (hne : text ≠ [])
    (h : firstMatch rules text = some token)
    (hmax : ∀ more, more ≠ [] → firstMatch rules (text ++ more) = none) (rest : List χ) :
    lex rules (text ++ rest) = token :: lex rules rest := by
  have hlongest : ∀ m, m ≤ rest.length →
      longestMatch rules (text ++ rest) (text.length + m) = some (text.length, token) := by
    intro m
    induction m with
    | zero =>
      intro _
      obtain ⟨n, hn⟩ : ∃ n, text.length = n + 1 :=
        ⟨text.length - 1, by have := List.length_pos_iff.mpr hne; omega⟩
      have htake : (text ++ rest).take (n + 1) = text := by
        rw [← hn, List.take_left]
      rw [Nat.add_zero, hn, longestMatch, htake, h]
    | succ m ih =>
      intro hm
      have htake : (text ++ rest).take (text.length + m + 1) = text ++ rest.take (m + 1) := by
        rw [Nat.add_assoc, List.take_length_add_append]
      have hmore : rest.take (m + 1) ≠ [] := by
        rw [← List.length_pos_iff, List.length_take]
        omega
      rw [← Nat.add_assoc, longestMatch, htake, hmax _ hmore]
      exact ih (by omega)
  have hwhole := hlongest rest.length (Nat.le_refl _)
  rw [← List.length_append] at hwhole
  rw [lex_of_longestMatch hwhole, List.drop_left]

/-- With a rule for every single character, there is always a match. -/
theorem exists_longestMatch (hsingle : ∀ c, (firstMatch rules [c]).isSome)
    {input : List χ} (hne : input ≠ []) {n : Nat} (hn : 0 < n) :
    ∃ found, longestMatch rules input n = some found := by
  induction n with
  | zero => exact absurd hn (by omega)
  | succ n ih =>
    unfold longestMatch
    cases hmatch : firstMatch rules (input.take (n + 1)) with
    | some token => exact ⟨_, rfl⟩
    | none =>
      rcases Nat.eq_zero_or_pos n with rfl | hpos
      · obtain ⟨c, rest, rfl⟩ := List.exists_cons_of_ne_nil hne
        have hsome := hsingle c
        rw [show (c :: rest).take (0 + 1) = [c] from rfl] at hmatch
        rw [hmatch] at hsome
        cases hsome
      · exact ih hpos

section

variable {c : χ} (hstart : ∀ text token, firstMatch rules text = some token → c ∉ text.tail)
include hstart

/-- A matched prefix does not reach past the start of the second part. -/
theorem longestMatch_append {first : List χ} (hne : first ≠ []) (rest : List χ) :
    longestMatch rules (first ++ c :: rest) (first ++ c :: rest).length =
      longestMatch rules first first.length := by
  have hbeyond : ∀ m, longestMatch rules (first ++ c :: rest) (first.length + m) =
      longestMatch rules (first ++ c :: rest) first.length := by
    intro m
    induction m with
    | zero => rfl
    | succ m ih =>
      have hnone : firstMatch rules ((first ++ c :: rest).take (first.length + m + 1)) = none := by
        cases hmatch : firstMatch rules ((first ++ c :: rest).take (first.length + m + 1)) with
        | none => rfl
        | some token =>
          have hlong := hstart _ _ hmatch
          obtain ⟨a, front, rfl⟩ := List.exists_cons_of_ne_nil hne
          rw [List.cons_append, List.take_succ_cons, List.tail_cons, List.length_cons] at hlong
          refine absurd ?_ hlong
          rw [List.take_append]
          apply List.mem_append_right
          rw [show front.length + 1 + m - front.length = m + 1 by omega, List.take_succ_cons]
          exact List.mem_cons_self
      rw [← Nat.add_assoc, longestMatch, hnone]
      exact ih
  have hlength : (first ++ c :: rest).length = first.length + (rest.length + 1) := by
    simp
  rw [hlength, hbeyond]
  apply longestMatch_congr
  intro m hm
  exact List.take_append_of_le_length hm

/-- The input can be cut before a character that only starts tokens. -/
theorem lex_append (hsingle : ∀ c, (firstMatch rules [c]).isSome) (first rest : List χ) :
    lex rules (first ++ c :: rest) = lex rules first ++ lex rules (c :: rest) := by
  -- Induction on the length of the first part, one token at a time.
  induction hlength : first.length using Nat.strongRecOn generalizing first with
  | ind length ih =>
    by_cases hne : first = []
    · subst hne
      rfl
    · obtain ⟨found, hfound⟩ :=
        exists_longestMatch hsingle hne (List.length_pos_iff.mpr hne)
      have hbounds := longestMatch_bounds hfound
      have hwhole := (longestMatch_append hstart hne rest).trans hfound
      have hdrop : (first ++ c :: rest).drop found.1 = first.drop found.1 ++ c :: rest :=
        List.drop_append_of_le_length hbounds.2
      have hshorter : (first.drop found.1).length < length := by
        rw [List.length_drop]
        omega
      rw [lex_of_longestMatch hwhole, lex_of_longestMatch hfound, hdrop,
        ih _ hshorter _ rfl, List.cons_append]

end

end Lexer
