/-
The scanner resynchronises on every packet.

A `$` can only start a token, so no token of the bytes before a packet reaches into it,
however they look: a packet that was cut off is given up where the match fails, and its
bytes go to the error buffer one by one.  The buffer empties itself when it is full.
-/
import ArmSimulator.Model.Scanner

namespace ArmSimulator

open Traced (Sim)

/-! ## The packet rule -/

theorem isPlain_dollar_hash : isPlain (chr '$') = false ∧ isPlain (chr '#') = false := by
  decide

theorem dollar_not_digit {c : BitVec 8} (h : Hex.isDigit c = true) : c ≠ chr '$' := by
  revert c
  decide

theorem Packet.isPlain_payload (k : Packet) : ∀ c ∈ k.payload, isPlain c = true := by
  intro c hc
  have := k.payload_plain c hc
  simp [isPlain, this]

theorem packetOf_text (k : Packet) : packetOf k.text = some k := by
  have hplain := k.isPlain_payload
  have hstop : ¬isPlain (chr '#') = true := by
    rw [isPlain_dollar_hash.2]
    decide
  have htake : (k.payload ++ [chr '#', k.high, k.low]).takeWhile isPlain = k.payload := by
    rw [List.takeWhile_append_of_pos hplain, List.takeWhile_cons_of_neg hstop, List.append_nil]
  have hdrop : (k.payload ++ [chr '#', k.high, k.low]).dropWhile isPlain =
      [chr '#', k.high, k.low] := by
    rw [List.dropWhile_append_of_pos hplain, List.dropWhile_cons_of_neg hstop]
  simp only [Packet.text, packetOf, hdrop, htake, if_true, k.high_digit, k.low_digit, and_self,
    dif_pos]

theorem text_of_packetOf {s : List (BitVec 8)} {k : Packet} (h : packetOf s = some k) :
    s = k.text := by
  cases s with
  | nil => cases h
  | cons c rest =>
    simp only [packetOf] at h
    split at h
    · next hc =>
      split at h
      · next hash high low hdrop =>
        split at h
        · next hd =>
          cases h
          rw [Packet.text, hc, ← hd.1, ← hdrop, List.takeWhile_append_dropWhile]
        · cases h
      · cases h
    · cases h

theorem Packet.dollar_not_mem_tail (k : Packet) : chr '$' ∉ k.text.tail := by
  intro h
  rw [Packet.text, List.tail_cons, List.mem_append] at h
  rcases h with h | h
  · exact (k.payload_plain _ h).1 rfl
  · simp only [List.mem_cons, List.not_mem_nil, or_false] at h
    rcases h with h | h | h
    · exact absurd h (by decide)
    · exact dollar_not_digit k.high_digit h.symm
    · exact dollar_not_digit k.low_digit h.symm

/-! ## Tokens -/

theorem dollar_starts_tokens (s : List (BitVec 8)) (token : Token)
    (h : Lexer.firstMatch rules s = some token) : chr '$' ∉ s.tail := by
  obtain ⟨rule, hrule, hmatch⟩ := List.exists_of_findSome?_eq_some h
  simp only [rules, List.mem_cons, List.not_mem_nil, or_false] at hrule
  have hsingle : ∀ c : BitVec 8, chr '$' ∉ [c].tail := fun c => List.not_mem_nil
  rcases hrule with rfl | rfl | rfl | rfl | rfl
  · simp only [charRule] at hmatch
    split at hmatch
    · next heq =>
      rw [heq]
      exact hsingle _
    · cases hmatch
  · simp only [charRule] at hmatch
    split at hmatch
    · next heq =>
      rw [heq]
      exact hsingle _
    · cases hmatch
  · obtain ⟨k, hk, -⟩ := Option.map_eq_some_iff.mp hmatch
    rw [text_of_packetOf hk]
    exact k.dollar_not_mem_tail
  · unfold dotRule at hmatch
    split at hmatch
    · exact hsingle _
    · cases hmatch
  · unfold echoRule at hmatch
    split at hmatch
    · exact hsingle _
    · cases hmatch

theorem firstMatch_single (c : BitVec 8) : (Lexer.firstMatch rules [c]).isSome := by
  rw [Lexer.firstMatch, List.findSome?_isSome_iff]
  exact ⟨_, List.mem_of_getElem? (i := 4) rfl, rfl⟩

theorem firstMatch_text (k : Packet) : Lexer.firstMatch rules k.text = some (.packet k) := by
  have hlong : ∀ c, k.text ≠ [c] := by
    intro c h
    have := congrArg List.length h
    simp [Packet.text] at this
  simp [Lexer.firstMatch, rules, charRule, hlong, packetOf_text]

theorem scan_text (k : Packet) : scan k.text = [.packet k] :=
  Lexer.lex_of_firstMatch (by simp [Packet.text]) (firstMatch_text k)

theorem scan_append_text (p : List (BitVec 8)) (k : Packet) :
    scan (p ++ k.text) = scan p ++ [.packet k] := by
  have hcut := Lexer.lex_append dollar_starts_tokens firstMatch_single p
    (k.payload ++ [chr '#', k.high, k.low])
  rw [← scan_text k]
  exact hcut

/-! ## The error buffer -/

theorem handleError_apply (d : ParserData) :
    handleError d =
      if d.len = 0 then { value := (), state := d, trace := [] }
      else
        { value := (), state := { buffer := Function.update d.buffer d.len 0, len := 0 },
          trace := [.index d.len, .call .requireRetransmission] } := by
  by_cases h : d.len = 0
  · simp [handleError, getLen, bind, h]
  · simp [handleError, getLen, setBuffer, call, setErrorLen, bind, h]

@[simp] theorem handleError_len (d : ParserData) : (handleError d).state.len = 0 := by
  rw [handleError_apply]
  split
  · assumption
  · rfl

/-- The index of the buffer stays at most 1023, and so do the indices it is written
at. -/
def Within {α : Type} (m : Scanner α) : Prop :=
  Sim (fun s t => s = t ∧ s.len ≤ maxErrorSize - 1) (fun _ => True)
    (fun e => ∀ i, e = .index i → i ≤ maxErrorSize - 1) (fun _ => True) m m

theorem within_handleError : Within handleError := by
  apply Sim.invariant
  intro d hd
  refine ⟨?_, trivial, ?_⟩
  · rw [handleError_len]
    exact Nat.zero_le _
  · intro e he i hi
    subst hi
    rw [handleError_apply] at he
    split at he
    · cases he
    · simp only [List.mem_cons, ScannerEvent.index.injEq, reduceCtorEq, List.not_mem_nil,
        or_false] at he
      rw [he]
      exact hd

theorem within_addCharacterToError (c : BitVec 8) : Within (addCharacterToError c) := by
  have hstore : ∀ d : ParserData, d.len ≤ maxErrorSize - 2 →
      let m : Scanner Unit := do
        let len ← getLen
        setErrorLen (len + 1)
        setBuffer len c
      (m d).state.len ≤ maxErrorSize - 1 ∧
        ∀ e ∈ (m d).trace, ∀ i, e = .index i → i ≤ maxErrorSize - 1 := by
    intro d hd
    simp only [maxErrorSize] at hd
    simp only [getLen, setErrorLen, setBuffer, bind, maxErrorSize, List.nil_append]
    refine ⟨by omega, ?_⟩
    intro e he i hi
    rw [List.mem_singleton.mp he] at hi
    cases hi
    omega
  apply Sim.invariant
  intro d hd
  have hflush := within_handleError d d ⟨rfl, hd⟩ fun _ _ => trivial
  by_cases hfull : d.len > maxErrorSize - 2
  · obtain ⟨hlen, hindex⟩ := hstore (handleError d).state (by rw [handleError_len]; omega)
    simp only [addCharacterToError, Traced.bind_state, Traced.bind_trace, getLen, hfull, if_true]
    refine ⟨hlen, trivial, ?_⟩
    intro e he
    simp only [List.nil_append, List.mem_append] at he
    rcases he with he | he
    · exact hflush.2.2.2.2 e he
    · exact hindex e (by simpa [getLen] using he)
  · obtain ⟨hlen, hindex⟩ := hstore d (by omega)
    simp only [addCharacterToError, Traced.bind_state, Traced.bind_trace, getLen, hfull, if_false]
    refine ⟨hlen, trivial, ?_⟩
    intro e he
    exact hindex e (by simpa [getLen] using he)

theorem within_call (c : GdbCall) : Within (call c) := by
  apply Sim.invariant
  intro d hd
  refine ⟨hd, trivial, ?_⟩
  intro e he i hi
  rw [List.mem_singleton.mp he] at hi
  cases hi

theorem within_action (token : Token) : Within (action token) := by
  cases token with
  | ack => exact within_handleError
  | retransmission => exact Sim.bind within_handleError fun _ _ => within_call _
  | packet k => exact Sim.bind within_handleError fun _ _ => within_call _
  | other c => exact within_addCharacterToError c
  | echo c => exact Sim.pure trivial

theorem within_actions (tokens : List Token) : Within (actions tokens) := by
  induction tokens with
  | nil => exact Sim.pure trivial
  | cons token rest ih => exact Sim.bind (within_action token) fun _ _ => ih

theorem within_yylex (input : List (BitVec 8)) : Within (yylex input) :=
  Sim.bind (within_actions _) fun _ _ => within_handleError

/-! ## Dispatches -/

theorem calls_append (t u : List ScannerEvent) : calls (t ++ u) = calls t ++ calls u :=
  List.filterMap_append ..

theorem actions_append (tokens tokens' : List Token) (d : ParserData) :
    (actions (tokens ++ tokens') d).state = (actions tokens' (actions tokens d).state).state ∧
      (actions (tokens ++ tokens') d).trace =
        (actions tokens d).trace ++ (actions tokens' (actions tokens d).state).trace := by
  induction tokens generalizing d with
  | nil => exact ⟨rfl, rfl⟩
  | cons token rest ih =>
    obtain ⟨hstate, htrace⟩ := ih (action token d).state
    simp only [List.cons_append, actions, Traced.bind_state, Traced.bind_trace, hstate, htrace,
      List.append_assoc, and_self]

/-- The calls of a packet at the end of the input: what the end of the file would have
called, and the analysis of the packet. -/
theorem calls_packet_end (k : Packet) (d : ParserData) :
    calls ((do actions [.packet k]; handleError : Scanner Unit) d).trace =
      calls (handleError d).trace ++ [.packetAnalysis k.text] := by
  have hend : (handleError (handleError d).state).trace = [] := by
    rw [handleError_apply, if_pos (handleError_len d)]
  simp only [actions, action, Traced.bind_trace, Traced.bind_state, call, Traced.pure_apply, hend,
    calls_append, List.append_nil]
  rfl

theorem yylex_append_text (p : List (BitVec 8)) (k : Packet) (d : ParserData) :
    calls (yylex (p ++ k.text) d).trace =
      calls (yylex p d).trace ++ [.packetAnalysis k.text] := by
  obtain ⟨hstate, htrace⟩ := actions_append (scan p) [.packet k] d
  have hpacket := calls_packet_end k (actions (scan p) d).state
  rw [Traced.bind_trace, calls_append] at hpacket
  simp only [yylex, Traced.bind_trace, calls_append, scan_append_text, hstate, htrace,
    List.append_assoc]
  rw [hpacket]

/-- Scanning any bytes followed by a packet hands over the packet whole, once and last.
What comes before it gives the tokens and the calls it gives when the input ends there,
and the error buffer is never overrun. -/
theorem scanner_resynchronises (p : List (BitVec 8)) (k : Packet) (buffer : Nat → BitVec 8) :
    let start : ParserData := { buffer := buffer, len := 0 }
    scan (p ++ k.text) = scan p ++ [.packet k] ∧
      calls (yylex (p ++ k.text) start).trace =
        calls (yylex p start).trace ++ [.packetAnalysis k.text] ∧
      (∀ i, .index i ∈ (yylex (p ++ k.text) start).trace → i ≤ 1023) ∧
      ∀ tokens, tokens <+: scan (p ++ k.text) → (actions tokens start).state.len ≤ 1023 := by
  intro start
  have hstart : start = start ∧ start.len ≤ maxErrorSize - 1 := ⟨rfl, Nat.zero_le _⟩
  refine ⟨scan_append_text p k, yylex_append_text p k start, ?_, ?_⟩
  · intro i hi
    exact (within_yylex (p ++ k.text) start start hstart fun _ _ => trivial).2.2.2.2 _ hi i rfl
  · intro tokens _
    exact (within_actions tokens start start hstart fun _ _ => trivial).2.2.1.2

end ArmSimulator
