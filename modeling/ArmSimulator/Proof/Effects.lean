/-
What the handlers that use the registers alone may do.

`ReadEffect` and `RegisterEffect` say what the accessors of `arm_core.c` for registers
and status words do to the core, and the lemmas carry it through the shifter, the
addressing mode, data processing and branches.  `W` tells which registers may be
written.
-/
import ArmSimulator.Model.Instruction

namespace ArmSimulator

open Traced (Effect)

structure ReadEffect (R : Core → Core → Prop) (G : Access → Prop) : Prop where
  refl : ∀ s, R s s
  trans : ∀ s t u, R s t → R t u → R s u
  readRegister (reg : Fin 16) : Effect R G (armReadRegister reg)
  readCpsr : Effect R G armReadCpsr

structure RegisterEffect (R : Core → Core → Prop) (G : Access → Prop) (W : Fin 16 → Prop) :
    Prop extends ReadEffect R G where
  readSpsr : Effect R G armReadSpsr
  writeRegister {reg : Fin 16} (hreg : W reg) (value : BitVec 32) :
    Effect R G (armWriteRegister reg value)
  writeCpsr (value : BitVec 32) : Effect R G (armWriteCpsr value)

section

variable {R : Core → Core → Prop} {G : Access → Prop} (h : ReadEffect R G)
include h

theorem armReadCarry_effect : Effect R G armReadCarry :=
  Effect.bind h.trans h.readCpsr fun _ => Effect.pure h.refl _

theorem shifterAmount_effect (ins : BitVec 32) : Effect R G (shifterAmount ins) := by
  refine Effect.bind h.trans (Effect.ite ?_ ?_) fun _ => Effect.pure h.refl _
  · exact fun _ => h.readRegister _
  · exact fun _ => Effect.pure h.refl _

theorem shifterOperand_effect (host : Host) (ins : BitVec 32) :
    Effect R G (shifterOperand host ins) := by
  refine Effect.bind h.trans (h.readRegister _) fun rm => ?_
  refine Effect.bind h.trans (shifterAmount_effect h ins) fun shift => ?_
  refine Effect.bind h.trans (Effect.ite (fun _ => armReadCarry_effect h)
    fun _ => Effect.pure h.refl _) fun carryIn => ?_
  cases ShiftKind.ofField (getBits ins 6 5) with
  | lsl => exact Effect.pure h.refl _
  | lsr => exact Effect.pure h.refl _
  | asr => exact Effect.pure h.refl _
  | ror =>
    refine Effect.ite (fun _ => ?_) fun _ => Effect.pure h.refl _
    exact Effect.bind h.trans (armReadCarry_effect h) fun _ => Effect.pure h.refl _

theorem addressingMode_effect (host : Host) (ins : BitVec 32) :
    Effect R G (addressingMode host ins) := by
  refine Effect.bind h.trans (Effect.ite ?_ fun _ => Effect.ite ?_ ?_) fun _ => Effect.pure h.refl _
  · intro _
    exact Effect.bind h.trans (shifterOperand_effect h host ins) fun _ => Effect.pure h.refl _
  · intro _
    exact Effect.ite (fun _ => Effect.pure h.refl _) fun _ => h.readRegister _
  · exact fun _ => Effect.pure h.refl _

theorem dataProcessingOperand_effect (host : Host) (ins : BitVec 32) :
    Effect R G (dataProcessingOperand host ins) := by
  refine Effect.ite (fun _ => ?_) fun _ => shifterOperand_effect h host ins
  exact Effect.bind h.trans (armReadCarry_effect h) fun _ => Effect.pure h.refl _

theorem flagOperand_effect (opcode : Opcode) (shifter : BitVec 32) :
    Effect R G (flagOperand opcode shifter) := by
  refine Effect.bind h.trans (Effect.ite ?_ fun _ => Effect.pure h.refl _) fun _ =>
    Effect.ite ?_ fun _ => Effect.pure h.refl _
  · intro _
    exact Effect.bind h.trans (armReadCarry_effect h) fun _ => Effect.pure h.refl _
  · intro _
    exact Effect.bind h.trans (armReadCarry_effect h) fun _ => Effect.pure h.refl _

end

section

variable {R : Core → Core → Prop} {G : Access → Prop} {W : Fin 16 → Prop}
  (h : RegisterEffect R G W)
include h

theorem armCurrentModeHasSpsr_effect : Effect R G armCurrentModeHasSpsr :=
  fun s => ⟨h.refl s, fun _ he => absurd he List.not_mem_nil⟩

theorem armMiscellaneous_effect {ins : BitVec 32} (hrd : W (regField ins 12)) :
    Effect R G (armMiscellaneous ins) := by
  refine Effect.ite (fun _ => Effect.pure h.refl _) fun _ => Effect.ite (fun _ => ?_) fun _ => ?_
  · refine Effect.bind h.trans (armCurrentModeHasSpsr_effect h) fun _ =>
      Effect.ite (fun _ => ?_) fun _ => Effect.pure h.refl _
    refine Effect.bind h.trans h.readSpsr fun _ => ?_
    exact Effect.bind h.trans (h.writeRegister hrd _) fun _ => Effect.pure h.refl _
  · refine Effect.bind h.trans h.readCpsr fun _ => ?_
    exact Effect.bind h.trans (h.writeRegister hrd _) fun _ => Effect.pure h.refl _

theorem compareMiscellaneous_effect {ins : BitVec 32} (hrd : W (regField ins 12)) :
    Effect R G (compareMiscellaneous ins) := by
  refine Effect.ite (fun _ => Effect.pure h.refl _) fun _ => ?_
  exact Effect.bind h.trans (armMiscellaneous_effect h hrd) fun _ => Effect.pure h.refl _

theorem dataProcessingResult_effect {ins : BitVec 32} (hrd : W (regField ins 12))
    (rn shifter : BitVec 32) : Effect R G (dataProcessingResult ins rn shifter) := by
  have hcarry : ∀ f : Bool → BitVec 32,
      Effect R G (armReadCarry >>= fun carry => pure (f carry)) :=
    fun f => Effect.bind h.trans (armReadCarry_effect h.toReadEffect) fun _ => Effect.pure h.refl _
  have hcompare : ∀ v : BitVec 32, Effect R G (compareMiscellaneous ins >>= fun _ => pure v) :=
    fun v => Effect.bind h.trans (compareMiscellaneous_effect h hrd) fun _ => Effect.pure h.refl _
  unfold dataProcessingResult
  cases insOpcode ins with
  | adc | sbc | rsc => exact hcarry _
  | tst | teq | cmp | cmn => exact hcompare _
  | _ => exact Effect.pure h.refl _

theorem dataProcessingStatus_effect (ins rn shifter res : BitVec 32) (carryOut : Bool) :
    Effect R G (dataProcessingStatus ins rn shifter res carryOut) := by
  refine Effect.ite (fun _ => ?_) fun _ => Effect.pure h.refl _
  refine Effect.bind h.trans (Effect.ite (fun _ => armCurrentModeHasSpsr_effect h)
    fun _ => Effect.pure h.refl _) fun _ => Effect.ite (fun _ => ?_) fun _ => ?_
  · exact Effect.bind h.trans h.readSpsr fun _ => h.writeCpsr _
  · refine Effect.bind h.trans (flagOperand_effect h.toReadEffect _ _) fun _ => ?_
    exact Effect.bind h.trans h.readCpsr fun _ => h.writeCpsr _

theorem armDataProcessing_effect (host : Host) {ins : BitVec 32} (hrd : W (regField ins 12)) :
    Effect R G (armDataProcessing host ins) := by
  refine Effect.bind h.trans (h.readRegister _) fun _ => ?_
  refine Effect.bind h.trans (dataProcessingOperand_effect h.toReadEffect host ins) fun _ => ?_
  refine Effect.bind h.trans (dataProcessingResult_effect h hrd _ _) fun _ => ?_
  refine Effect.bind h.trans (Effect.ite (fun _ => h.writeRegister hrd _)
    fun _ => Effect.pure h.refl _) fun _ => ?_
  exact Effect.bind h.trans (dataProcessingStatus_effect h _ _ _ _ _) fun _ => Effect.pure h.refl _

theorem armBranch_effect (h14 : W 14) (h15 : W 15) (ins : BitVec 32) :
    Effect R G (armBranch ins) := by
  refine Effect.bind h.trans (Effect.ite (fun _ => ?_) fun _ => Effect.pure h.refl _) fun _ => ?_
  · exact Effect.bind h.trans (h.readRegister _) fun _ => h.writeRegister h14 _
  · refine Effect.bind h.trans (h.readRegister _) fun _ => ?_
    exact Effect.bind h.trans (h.writeRegister h15 _) fun _ => Effect.pure h.refl _

end

end ArmSimulator
