import Vr4300.Proofs.DerivedState
import Vr4300.Proofs.Precise
import Vr4300.Proofs.Transfers

/-!
# `Proofs.Classification` — what a fragment knows of a word

Before a fragment runs, each of its words is looked at once. Its handler is taken from the table of its group, with
no regard to whether the floating-point unit is usable, and the word is classified, so that the fragment knows
how much of the processor the handler can reach. The tables for this name opcodes and function fields; they are
written apart from the tables by which instructions are decoded.

## Contents

* `classify`, `needsFloatUnit`: the tables; `kind_decode`: they agree with the decoded instruction;
* `mainSlot`, `groupHandler`, `leafHandler`: the tables of handlers, and how a handler is looked up in them;
* `HandlerOf`: the handlers of a word; `HandlerOf.run`: what they do;
* `Handler.Transfers`, `Workbench.Steady`: what trivial and memory instructions can reach;
* `HandlerOf.goesOn`: where execution continues behind anything else than a branch;
* `classification_sound`.
-/

namespace Vr4300

open Encoding

/-! ## The tables -/

/-- The kind of an instruction with opcode zero, by its function field. -/
def classifySpecial (function : Nat) : InstructionKind :=
  match function with
  | 0x00 | 0x02 | 0x03 | 0x04 | 0x06 | 0x07 | 0x14 | 0x16 | 0x17 => .trivial
  | 0x38 | 0x3A | 0x3B | 0x3C | 0x3E | 0x3F => .trivial
  | 0x10 | 0x11 | 0x12 | 0x13 => .trivial
  | 0x18 | 0x19 | 0x1A | 0x1B | 0x1C | 0x1D | 0x1E | 0x1F => .trivial
  | 0x21 | 0x23 | 0x24 | 0x25 | 0x26 | 0x27 | 0x2A | 0x2B | 0x2D | 0x2F => .trivial
  | 0x0F => .trivial
  | 0x08 | 0x09 => .branch
  | _ => .generic

/-- The kind of an instruction with opcode one, by its selector. -/
def classifyRegisterImmediate (selector : Nat) : InstructionKind :=
  match selector with
  | 0x00 | 0x01 | 0x02 | 0x03 | 0x10 | 0x11 | 0x12 | 0x13 => .branch
  | _ => .generic

/-- The kind of a word with a given opcode. -/
def classifyOpcode (w : UInt32) (op : Nat) : InstructionKind :=
  match op with
  | 0x09 | 0x0A | 0x0B | 0x0C | 0x0D | 0x0E | 0x0F | 0x19 => .trivial
  | 0x02 | 0x03 | 0x04 | 0x05 | 0x06 | 0x07 | 0x14 | 0x15 | 0x16 | 0x17 => .branch
  | 0x20 | 0x24 | 0x21 | 0x25 | 0x23 | 0x27 | 0x37 | 0x22 | 0x26 | 0x1A | 0x1B => .memory
  | 0x28 | 0x29 | 0x2B | 0x3F | 0x2A | 0x2E | 0x2C | 0x2D => .memory
  | 0x31 | 0x35 | 0x39 | 0x3D => .memory
  | 0x00 => classifySpecial (funct w).toNat
  | 0x01 => classifyRegisterImmediate (rt w).val
  | 0x11 => if (rs w).val = 0x08 then .branch else .generic
  | _ => .generic

/-- The kind of a word. -/
def classify (w : UInt32) : InstructionKind := classifyOpcode w (opcode w).toNat

/-- The word needs the floating-point unit. -/
def needsFloatUnit (w : UInt32) : Bool := gatedOpcodes.contains (opcode w).toNat

namespace Instruction

@[simp] theorem kind_decodeSpecial (w : UInt32) : (decodeSpecial w).kind = classifySpecial (funct w).toNat := by
  unfold decodeSpecial
  dsimp only
  split
  case h_53 =>
    unfold classifySpecial
    split <;> first | rfl | contradiction
  all_goals
    rename_i h
    unfold classifySpecial
    rw [h]
    rfl

@[simp] theorem kind_decodeRegisterImmediate (w : UInt32) :
    (decodeRegisterImmediate w).kind = classifyRegisterImmediate (rt w).val := by
  unfold decodeRegisterImmediate
  dsimp only
  split
  case h_15 =>
    unfold classifyRegisterImmediate
    split <;> first | rfl | contradiction
  all_goals
    rename_i h
    unfold classifyRegisterImmediate
    rw [h]
    rfl

@[simp] theorem kind_decodeSystem (w : UInt32) : (decodeSystem w).kind = .generic := by
  unfold decodeSystem
  split
  case h_5 =>
    split
    · rfl
    · split <;> rfl
  all_goals rfl

@[simp] theorem kind_decodeFloat (w : UInt32) :
    (decodeFloat w).kind = if (rs w).val = 0x08 then .branch else .generic := by
  unfold decodeFloat
  split
  case h_12 => exact (if_neg (by assumption)).symm
  all_goals
    rename_i h
    rw [h]
    rfl

@[simp] theorem kind_decodeLatch (w : UInt32) : (decodeLatch w).kind = .generic := by
  unfold decodeLatch
  split <;> rfl

/-- **The classification** of a word is the kind of the instruction that it is decoded to. -/
theorem kind_decode (w : UInt32) : (decode w).kind = classify w := by
  have hgroup {i : Instruction} {kind : InstructionKind} {op : Nat} (hi : i.kind = kind)
      (hop : (opcode w).toNat = op) (htable : classifyOpcode w op = kind) : i.kind = classify w := by
    unfold classify
    rw [hop, hi, htable]
  unfold decode
  dsimp only
  split
  -- the groups with a table of their own
  case h_1 h => exact hgroup (kind_decodeSpecial w) h rfl
  case h_2 h => exact hgroup (kind_decodeRegisterImmediate w) h rfl
  case h_17 h => exact hgroup (kind_decodeSystem w) h rfl
  case h_18 h => exact hgroup (kind_decodeFloat w) h rfl
  case h_19 h => exact hgroup (kind_decodeLatch w) h rfl
  -- an opcode without an instruction
  case h_58 =>
    unfold classify classifyOpcode
    split <;> first | rfl | contradiction
  all_goals
    rename_i h
    exact hgroup rfl h rfl

end Instruction

/-! ## The handlers of a word -/

/-- The handler in the main table, while the floating-point unit is usable or while it is not. -/
def mainSlot (usable : Bool) (w : UInt32) : Handler Unit :=
  if needsFloatUnit w && !usable then Handler.raise (.coprocessorUnusable 1) else Handler.handle (.decode w)

/-- The handler to which a word leads through the tables of the groups. -/
def groupHandler (usable : Bool) (w : UInt32) : Handler Unit :=
  match (opcode w).toNat with
  | 0x00 => Handler.handle (.decodeSpecial w)
  | 0x01 => Handler.handle (.decodeRegisterImmediate w)
  | 0x10 => Handler.handle (.decodeSystem w)
  | 0x11 => if usable then Handler.handle (.decodeFloat w) else mainSlot usable w
  | 0x12 => Handler.handle (.decodeLatch w)
  | _ => mainSlot usable w

/-- The handler that a fragment keeps for a word. The gated opcodes have theirs from a list of its own, whatever stands
in the main table at the time. -/
def leafHandler (usable : Bool) (w : UInt32) : Handler Unit :=
  match (opcode w).toNat with
  | 0x11 => Handler.handle (.decodeFloat w)
  | 0x31 => Handler.handleLoad .lwc1 (rt w) (rs w) (signedImmediate w)
  | 0x35 => Handler.handleLoad .ldc1 (rt w) (rs w) (signedImmediate w)
  | 0x39 => Handler.handleStore .swc1 (rt w) (rs w) (signedImmediate w)
  | 0x3D => Handler.handleStore .sdc1 (rt w) (rs w) (signedImmediate w)
  | _ => groupHandler usable w

/-- A processor uses the main table that its floating-point unit allows. -/
theorem handler_eq_mainSlot (w : UInt32) (b : Workbench) : handler w b = mainSlot b.cpu.floatUsable w b := by
  show (if (Instruction.decode w).needsFloat && !b.cpu.floatUsable then Handler.raise (.coprocessorUnusable 1)
    else Handler.handle (.decode w) : Handler Unit) b = _
  rw [Instruction.needsFloat_decode]
  rfl

/-- The tables of the groups lead to the same handler as the main table. -/
theorem groupHandler_eq (usable : Bool) (w : UInt32) : groupHandler usable w = mainSlot usable w := by
  unfold groupHandler
  split
  case h_4 h =>
    cases usable with
    | false => rfl
    | true =>
      unfold mainSlot Instruction.decode
      rw [Bool.not_true, Bool.and_false, h]
      rfl
  case h_6 => rfl
  all_goals
    rename_i h
    unfold mainSlot needsFloatUnit Instruction.decode
    rw [h]
    rfl

/-- **The handler that is kept** is the one of the decoded instruction. -/
theorem leafHandler_eq (usable : Bool) (w : UInt32) : leafHandler usable w = Handler.handle (.decode w) := by
  unfold leafHandler
  split
  case h_6 =>
    have hungated : needsFloatUnit w = false := by
      unfold needsFloatUnit gatedOpcodes
      simp only [List.contains_eq_mem, decide_eq_false_iff_not, List.mem_cons, List.not_mem_nil, or_false]
      grind
    rw [groupHandler_eq]
    unfold mainSlot
    rw [hungated]
    rfl
  all_goals
    rename_i h
    unfold Instruction.decode
    rw [h]
    rfl

/-- **The handlers of a word**: the one that the processor finds in its main table, and the ones that fragments keep. -/
inductive HandlerOf (w : UInt32) : Handler Unit → Prop where
  | main : HandlerOf w (handler w)
  | kept (usable : Bool) : HandlerOf w (leafHandler usable w)

/-- Each of them does what its instruction plans, unless the main table refuses it. -/
theorem HandlerOf.run {w : UInt32} {x : Handler Unit} (h : HandlerOf w x) (b : Workbench) :
    x b = b.finish (b.cpu.plan (.decode w)) ∨
      needsFloatUnit w = true ∧ x b = (.error (.trap (.coprocessorUnusable 1)), b) := by
  have hhandle : Handler.handle (.decode w) b = b.finish (b.cpu.plan (.decode w)) := Handler.handle_eq _ b
  cases h with
  | kept usable => exact .inl ((congrFun (leafHandler_eq usable w) b).trans hhandle)
  | main =>
    rw [handler_eq_mainSlot]
    unfold mainSlot
    split
    · rename_i hrefused
      exact .inr ⟨(Bool.and_eq_true_iff.mp hrefused).1, rfl⟩
    · exact .inl hhandle

/-! ## Resolution -/

/-- An allowed word has the same handler everywhere. -/
theorem leafHandler_eq_handler {w : UInt32} {b : Workbench} (usable : Bool)
    (h : b.cpu.floatUsable = true ∨ needsFloatUnit w = false) : leafHandler usable w b = handler w b := by
  rw [leafHandler_eq, handler_eq_mainSlot]
  unfold mainSlot
  rcases h with h | h
  · rw [h, Bool.not_true, Bool.and_false]
    rfl
  · rw [h]
    rfl

/-- **A word is refused** while the floating-point unit is not usable exactly if it needs the unit. -/
theorem handler_refuses_iff {w : UInt32} {b : Workbench} (h : b.cpu.floatUsable = false) :
    (handler w b).1 = .error (.trap (.coprocessorUnusable 1)) ↔ needsFloatUnit w = true := by
  rw [handler_eq_mainSlot, h]
  unfold mainSlot
  constructor
  · intro hraised
    refine by_contra fun hneeds => ?_
    rw [Bool.not_eq_true] at hneeds
    have hplan := b.cpu.plan_ne_floatUnusable (.decode w)
    rw [hneeds, Bool.false_and, if_neg Bool.false_ne_true, Handler.handle_eq] at hraised
    cases hp : b.cpu.plan (.decode w) with
    | ok p => rw [hp] at hraised; cases hraised
    | error f =>
      rw [hp] at hraised hplan
      cases f with
      | trap t =>
        have ht : t = .coprocessorUnusable 1 := HandlerFault.trap.inj (Except.error.inj hraised)
        exact hplan (ht ▸ rfl)
      | floatingPoint fcr31 => cases hraised
      | fatal e => cases hraised
  · intro hneeds
    rw [hneeds]
    rfl

/-! ## Trivial instructions -/

namespace Workbench

/-- The workbench with other general registers and another multiply/divide pair. -/
def withRegisters (b : Workbench) (regs : GeneralRegisters) (hilo : HiLo) : Workbench :=
  { b with cpu := { b.cpu with regs := regs, hilo := hilo } }

/-- A change of everything else, which does not depend on them either. -/
def Apart (g : Workbench → Workbench) : Prop :=
  ∀ b regs hilo, g (b.withRegisters regs hilo) = (g b).withRegisters regs hilo

variable {g : Workbench → Workbench}

theorem Apart.registers (hg : Apart g) (b : Workbench) :
    (g b).cpu.regs = b.cpu.regs ∧ (g b).cpu.hilo = b.cpu.hilo := by
  have h := hg b b.cpu.regs b.cpu.hilo
  rw [show b.withRegisters b.cpu.regs b.cpu.hilo = b from rfl] at h
  exact ⟨congrArg (·.cpu.regs) h, congrArg (·.cpu.hilo) h⟩

/-- Time passes, execution is elsewhere, control registers are written. -/
theorem apart_passage (pc cycles : UInt64) (cp0 : ControlRegisters) (events : Schedule TimerAction) :
    Apart fun b => { b with cpu := { b.cpu with pc := pc, cycles := cycles, cp0 := cp0, events := events } } :=
  fun _ _ _ => rfl

end Workbench

/-- A trivial instruction has no use for the floating-point unit. -/
theorem Instruction.needsFloat_of_trivial {i : Instruction} (h : i.kind = .trivial) : i.needsFloat = false := by
  cases i with
  | load op => cases op <;> first | rfl | cases h
  | store op => cases op <;> first | rfl | cases h
  | branch | float => cases h
  | _ => rfl

namespace Handler

/-- The handler completes. It computes from the general registers and the multiply/divide pair, and writes only
these. -/
def Transfers (x : Handler Unit) : Prop :=
  ∃ f : GeneralRegisters → HiLo → GeneralRegisters × HiLo, ∀ b : Workbench,
    x b = (.ok (), b.withRegisters (f b.cpu.regs b.cpu.hilo).1 (f b.cpu.regs b.cpu.hilo).2)

/-- Such a handler **commutes** with changes of everything else. -/
theorem Transfers.commutes {x : Handler Unit} (h : x.Transfers) {g : Workbench → Workbench}
    (hg : Workbench.Apart g) (b : Workbench) : x (g b) = ((x b).1, g (x b).2) := by
  obtain ⟨f, hf⟩ := h
  obtain ⟨hregs, hhilo⟩ := hg.registers b
  rw [hf, hf, hregs, hhilo, hg]

/-- A trivial instruction is such a handler. -/
theorem transfers_of_trivial {i : Instruction} (h : i.kind = .trivial) : (handle i).Transfers := by
  have hstep (regs : GeneralRegisters) (hilo : HiLo) : ∃ after : GeneralRegisters × HiLo, ∀ b : Workbench,
      b.cpu.regs = regs → b.cpu.hilo = hilo → handle i b = (.ok (), b.withRegisters after.1 after.2) := by
    obtain ⟨e, regs', hilo', hspec⟩ := trivial_spec h { (default : Cpu) with regs := regs, hilo := hilo }
    refine ⟨(regs', hilo'), fun b hregs hhilo => ?_⟩
    obtain ⟨hplan, happly⟩ := hspec b.cpu hregs hhilo
    rw [handle_eq, hplan]
    show (Except.ok (), b.complete { effect := e }) = _
    unfold Workbench.complete
    rw [happly]
    rfl
  choose f hf using hstep
  exact ⟨f, fun b => hf b.cpu.regs b.cpu.hilo b rfl rfl⟩

end Handler

/-- **The handlers of a trivial word** are such handlers. -/
theorem HandlerOf.transfers {w : UInt32} {x : Handler Unit} (h : HandlerOf w x) (hkind : classify w = .trivial) :
    x.Transfers := by
  rw [← Instruction.kind_decode] at hkind
  have hneeds : needsFloatUnit w = false := by
    unfold needsFloatUnit
    rw [← Instruction.needsFloat_decode]
    exact Instruction.needsFloat_of_trivial hkind
  obtain ⟨f, hf⟩ := Handler.transfers_of_trivial hkind
  refine ⟨f, fun b => ?_⟩
  rcases h.run b with hrun | ⟨h, -⟩
  · rw [hrun, ← Handler.handle_eq, hf]
  · cases hneeds.symm.trans h

/-! ## Memory instructions -/

/-- **What a fragment has to look at** behind an instruction, or to bring up to date before it. -/
structure Workbench.Steady (b b' : Workbench) : Prop where
  /-- The target of a branch. -/
  target : b'.target = b.target
  /-- Where execution continues. -/
  next : b'.next = b.next
  /-- The pending target. -/
  delaySlot : b'.cpu.delaySlot = b.cpu.delaySlot
  /-- Status and Cause, with all other control registers. -/
  cp0 : b'.cpu.cp0 = b.cpu.cp0
  /-- The entries that map addresses, and the note that one was replaced. -/
  tlb : b'.cpu.tlb = b.cpu.tlb ∧ b'.cpu.tlbDirty = b.cpu.tlbDirty
  /-- The notes of overwritten instructions. -/
  codeInvalidations : b'.cpu.codeInvalidations = b.cpu.codeInvalidations
  /-- Why the run should end. -/
  breakout : b'.cpu.breakout = b.cpu.breakout

/-- The effect moves numbers between registers and memory. -/
def Effect.moves : Effect → Bool
  | .none | .register _ _ | .hilo _ | .store _ _ _ | .storeMasked _ _ _ _ => true
  | .load _ _ (.linked _ _) => false
  | .load _ _ _ => true
  | _ => false

/-- Moving numbers leaves everything else alone. -/
theorem Cpu.apply_of_moves (c : Cpu) {e : Effect} (h : e.moves = true) :
    ∃ regs hilo fpr ram bus,
      c.apply e = { c with regs := regs, hilo := hilo, fpr := fpr, ram := ram, bus := bus } := by
  have hwrite {c' : Cpu} (hc : ∃ bus, c' = { c with bus := bus }) (w : Width) (l : Location) (v : UInt64) :
      ∃ ram bus, c'.writeAt w l v = { c with ram := ram, bus := bus } := by
    obtain ⟨bus, rfl⟩ := hc
    cases l <;> exact ⟨_, _, rfl⟩
  have hread (w : Width) (l : Location) : ∃ bus, (c.readAt w l).2 = { c with bus := bus } := by
    cases l <;> exact ⟨_, rfl⟩
  cases e with
  | none => exact ⟨_, _, _, _, _, rfl⟩
  | register rd v => exact ⟨_, _, _, _, _, rfl⟩
  | hilo v => exact ⟨_, _, _, _, _, rfl⟩
  | load w source into =>
    obtain ⟨bus, hbus⟩ := hread w source
    show ∃ regs hilo fpr ram bus, (c.readAt w source).2.deliver w (c.readAt w source).1 into = _
    rw [hbus]
    cases into with
    | linked rt physical => cases h
    | float p ft => cases p <;> exact ⟨_, _, _, _, _, rfl⟩
    | _ => exact ⟨_, _, _, _, _, rfl⟩
  | store w target v =>
    obtain ⟨ram, bus, h⟩ := hwrite ⟨_, rfl⟩ w target v
    exact ⟨_, _, _, ram, bus, h⟩
  | storeMasked w target v mask =>
    obtain ⟨ram, bus, h⟩ := hwrite (hread w target) w target (blend (c.readAt w target).1 v mask)
    exact ⟨_, _, _, ram, bus, h⟩
  | _ => cases h

/-- What is planned is refused, or moves numbers. -/
def Cpu.Local (planned : Except Fault Plan) : Prop :=
  (∃ t, planned = .error (.trap t)) ∨ ∃ e, planned = .ok { effect := e } ∧ e.moves = true

/-- A trivial or a memory instruction. -/
theorem Cpu.local_plan {i : Instruction} (h : i.kind = .trivial ∨ i.kind = .memory) (c : Cpu) :
    Local (c.plan i) := by
  have hlocated {w : Width} {access : Access} {address : UInt64} {f : Location → Effect}
      (hf : ∀ l, (f l).moves = true) :
      Local (c.locate w access address >>= fun l => pure { effect := f l }) := by
    unfold locate
    cases c.resolve w access address with
    | error t => exact .inl ⟨t, rfl⟩
    | ok l => exact .inr ⟨f l, rfl, hf l⟩
  rcases h with h | h
  · obtain ⟨e, hplan, rfl | ⟨rd, v, rfl⟩ | ⟨v, rfl⟩⟩ := plan_of_trivial h c
    all_goals exact .inr ⟨_, hplan, rfl⟩
  · cases i with
    | load op rt base offset => cases op <;> first | exact hlocated fun _ => rfl | cases h
    | store op rt base offset => cases op <;> first | exact hlocated fun _ => rfl | cases h
    | immediate op => cases op <;> cases h
    | register op => cases op <;> cases h
    | _ => cases h

/-- **Trivial and memory instructions** are steady, whether they complete or not. -/
theorem HandlerOf.steady {w : UInt32} {x : Handler Unit} (h : HandlerOf w x)
    (hkind : classify w = .trivial ∨ classify w = .memory) (b : Workbench) : b.Steady (x b).2 := by
  rw [← Instruction.kind_decode] at hkind
  have hrefl : b.Steady b := ⟨rfl, rfl, rfl, rfl, ⟨rfl, rfl⟩, rfl, rfl⟩
  rcases h.run b with hrun | ⟨-, hrun⟩
  · rw [hrun]
    rcases Cpu.local_plan hkind b.cpu with ⟨t, hplan⟩ | ⟨e, hplan, hmoves⟩
    · rw [hplan]
      exact hrefl
    · obtain ⟨regs, hilo, fpr, ram, bus, happly⟩ := b.cpu.apply_of_moves hmoves
      rw [hplan]
      show b.Steady (b.complete { effect := e })
      unfold Workbench.complete
      rw [happly]
      exact ⟨rfl, rfl, rfl, rfl, ⟨rfl, rfl⟩, rfl, rfl⟩
  · rw [hrun]
    exact hrefl

/-! ## Branches -/

/-- A word that is not classified as a branch is no transfer, or returns from an exception. -/
theorem transfers_of_classify {w : UInt32} (h : classify w ≠ .branch) :
    Transfer.ofWord w = .none ∧ (Instruction.decode w).transfers = false ∨
      Transfer.ofWord w = .leave ∧ Instruction.decode w = .system .eret := by
  have hdirects := Instruction.directs_decode w
  unfold Instruction.Directs at hdirects
  rw [← Instruction.kind_decode] at h
  cases hw : Transfer.ofWord w with
  | none => rw [hw] at hdirects; exact .inl ⟨rfl, hdirects⟩
  | leave => rw [hw] at hdirects; exact .inr ⟨rfl, hdirects.1⟩
  | region =>
    rw [hw] at hdirects
    obtain ⟨link, hi, -⟩ := hdirects
    exact absurd (congrArg Instruction.kind hi) h
  | register rs => rw [hw] at hdirects; exact absurd (congrArg Instruction.kind hdirects) h
  | relative test likely =>
    rw [hw] at hdirects
    obtain ⟨link, hi, -⟩ := hdirects
    exact absurd (congrArg Instruction.kind hi) h

/-- **A handler that is not a branch's** sets no target and goes on at the natural successor; the one that returns from
an exception completes and goes on where the exception was. -/
theorem HandlerOf.goesOn {w : UInt32} {x : Handler Unit} (h : HandlerOf w x) (hkind : classify w ≠ .branch)
    (b : Workbench) :
    (x b).2.target = b.target ∧
      (x b).2.next = if Transfer.ofWord w = .leave then b.cpu.returnAddress else b.next := by
  rcases transfers_of_classify hkind with ⟨hword, htransfers⟩ | ⟨hword, hdecode⟩
  · rw [hword, if_neg (by decide)]
    rcases h.run b with hrun | ⟨-, hrun⟩
    · rw [hrun]
      have hlevel := b.cpu.level_plan htransfers
      cases hplan : b.cpu.plan (.decode w) with
      | ok p =>
        have hflow := hlevel p hplan
        unfold Workbench.finish Workbench.complete
        dsimp only
        rw [hflow]
        exact ⟨rfl, rfl⟩
      | error f => cases f <;> exact ⟨rfl, rfl⟩
    · rw [hrun]
      exact ⟨rfl, rfl⟩
  · rw [hword, if_pos rfl]
    rcases h.run b with hrun | ⟨hneeds, -⟩
    · rw [hrun, hdecode]
      exact ⟨rfl, rfl⟩
    · have hfloat := Instruction.needsFloat_decode w
      rw [hdecode] at hfloat
      exact absurd (hfloat.trans hneeds) (by decide)

/-! ## All words -/

/-- In the states that there are, the floating-point unit is usable when Status says so. -/
theorem Machine.Encounters.gated {config : Configuration} {bus : Bus} {vector : VectorUnit} {visits : List Visit}
    {c : Cpu} (h : (Machine.create config bus vector).Encounters visits c) : c.Gated := by
  have hrest := Machine.atRest_create config bus vector
  have hstart : (Machine.create config bus vector).cpu.Fresh := (Cpu.fresh_reset _).of_eq rfl rfl rfl rfl
  cases h with
  | between _ => exact (Machine.fresh_receive _ hrest hstart).1.gated
  | within he hc => exact (Execution.fresh_passes hc ((Machine.fresh_receive visits hrest hstart).2 _ he)).gated

/-- **Classification is sound and resolution is faithful.** For every word: in every state the handler that fragments
keep does what the handler in the main table does, if Status makes the floating-point unit usable or the word does not
need it; while Status does not make it usable, the main table refuses exactly the words that need it, on behalf of the
first coprocessor. The handlers of a trivial word complete, compute from and write only the general registers and HI
and LO, and commute with every change of the rest. The handlers of a trivial or a memory word leave all that steers
execution, and all that a fragment would have to look at, as it was, even if they fail. A word that is not classified
as a branch never sets a target or skips a slot; if it returns from an exception it goes on where that was. Whether
the floating-point unit is usable, the tables know from Status in every state that there is. -/
theorem classification_sound (w : UInt32) :
    (∀ usable (b : Workbench), b.cpu.Gated →
      b.cpu.cp0.hasStatus Control.statusCU1 = true ∨ needsFloatUnit w = false →
        leafHandler usable w b = handler w b) ∧
    (∀ b : Workbench, b.cpu.Gated → b.cpu.cp0.hasStatus Control.statusCU1 = false →
      ((handler w b).1 = .error (.trap (.coprocessorUnusable 1)) ↔ needsFloatUnit w = true)) ∧
    (∀ x, HandlerOf w x →
      (classify w = .trivial →
        x.Transfers ∧ ∀ g, Workbench.Apart g → ∀ b, x (g b) = ((x b).1, g (x b).2)) ∧
      (classify w = .trivial ∨ classify w = .memory → ∀ b : Workbench, b.Steady (x b).2) ∧
      (classify w ≠ .branch → ∀ b, (x b).2.target = b.target ∧
        (x b).2.next = if Transfer.ofWord w = .leave then b.cpu.returnAddress else b.next)) ∧
    ∀ config bus vector visits c, (Machine.create config bus vector).Encounters visits c → c.Gated := by
  refine ⟨?_, ?_, ?_, fun _ _ _ _ _ h => h.gated⟩
  · intro usable b hgated hallowed
    exact leafHandler_eq_handler usable (hallowed.imp_left hgated.trans)
  · intro b hgated hstatus
    exact handler_refuses_iff (Eq.trans hgated hstatus)
  · intro x hx
    refine ⟨fun hkind => ?_, hx.steady, hx.goesOn⟩
    have htransfers : x.Transfers := hx.transfers hkind
    exact ⟨htransfers, fun _ => htransfers.commutes⟩

/-- On a machine that was just created a load of the floating-point unit is served alike by both handlers, though the
one that is kept was looked up while the unit was not usable. Adding a constant does not depend on the time. -/
theorem classification_sound_created :
    let start := Machine.create { general := { startPc := 0xFFFFFFFF80000000 }, memory := { ramSize := 16 } } {} {}
    let b := start.cpu.workbench
    let later : Workbench → Workbench :=
      fun b => { b with cpu := { b.cpu with pc := 8, cycles := 7, cp0 := default, events := {} } }
    needsFloatUnit 0xC4220000 = true ∧ leafHandler false 0xC4220000 b = handler 0xC4220000 b ∧
      classify 0x24210001 = .trivial ∧
      handler 0x24210001 (later b) = ((handler 0x24210001 b).1, later (handler 0x24210001 b).2) := by
  intro start b later
  have hstatus : b.cpu.cp0.hasStatus Control.statusCU1 = true := by decide +kernel
  have hgated : b.cpu.Gated := by unfold Cpu.Gated; decide +kernel
  obtain ⟨hkept, -⟩ := classification_sound 0xC4220000
  obtain ⟨-, -, hreach, -⟩ := classification_sound 0x24210001
  have htrivial : classify 0x24210001 = .trivial := by decide
  refine ⟨by decide, hkept false b hgated (.inl hstatus), htrivial, ?_⟩
  exact ((hreach _ .main).1 htrivial).2 later (Workbench.apart_passage 8 7 default {}) b

end Vr4300
