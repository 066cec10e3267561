import Chip8.Proofs.Checked.Execute
import Chip8.Proofs.Machine.WellFormed

/-! # Checked operations

Everything that a host can have a machine do, with all checks. On well-formed machines every
check passes, and the checked operation is the operation. So no operation reaches beyond an array or
computes a number out of its range, in any state that a machine can come to.
-/

namespace Chip8.Checked

def perform (m : Machine) (keys : Keyboard) (i : Instruction) : Option (Reply Unit) := do
  return ⟨.ok (), ← execute m keys i, i.notices m.pc⟩

def pollKey (m : Machine) (keys : Keyboard) : Option (Reply Outcome) :=
  match keys.pressed? with
  | none => return ⟨.ok .awaitingKey, m, #[]⟩
  | some key => do
    let v ← set m.v m.keyRegister key
    return ⟨.ok (.keyReceived key), { m with waiting := false, v }, #[]⟩

def fetch (m : Machine) : Option (Except Fault Trace) :=
  if !m.config.allowMisaligned && m.pc.toNat % 2 == 1 then return .error (.misalignedFetch m.pc)
  else do
    let opcode ← readWord m.memory m.pc.toNat
    let next ← readWord m.memory (← add word m.pc.toNat 2)
    return (m.decode opcode next m.pc).map fun i => ⟨m.pc, opcode, i⟩

def cycle (m : Machine) (keys : Keyboard) : Option (Reply Outcome) :=
  if m.waiting then pollKey m keys
  else do
    match ← fetch m with
    | .error e => return ⟨.error e, m, #[]⟩
    | .ok t =>
      let reply ← perform (m.advance t.instruction.size) keys t.instruction
      return ⟨.ok (.executed t), reply.machine, reply.notices.push (.event (.executed t))⟩

def executeOpcode (m : Machine) (keys : Keyboard) (opcode : UInt16) :
    Option (Reply Instruction) := do
  let next ← readWord m.memory m.pc.toNat
  match m.decode opcode next (m.pc - 2) with
  | .error e => return ⟨.error e, m, #[]⟩
  | .ok i =>
    let rest ← sub i.size.toNat 2
    let reply ← perform (m.advance (UInt16.ofNat rest)) keys i
    return ⟨.ok i, reply.machine, reply.notices⟩

def tick (m : Machine) : Option (Reply Unit) := do
  let sound ← if 0 < m.sound.toNat then sub m.sound.toNat 1 else some 0
  return ⟨.ok (), { m with
    delay := countDown m.delay, sound := UInt8.ofNat sound, beeping := m.soundOn },
    beepNotices m.beeping m.soundOn⟩

def runCycles (keys : Nat → Keyboard) :
    (budget ran : Nat) → Machine → Array Notice → Option (Reply Nat)
  | 0, ran, m, told => some ⟨.ok ran, m, told⟩
  | budget + 1, ran, m, told =>
    if m.resting then some ⟨.ok ran, m, told⟩
    else do
      let reply ← cycle m (keys ran)
      match reply.result with
      | .error e => return ⟨.error e, reply.machine, told ++ reply.notices⟩
      | .ok _ =>
        let ran ← add word ran 1
        runCycles keys budget ran reply.machine (told ++ reply.notices)

def frame (m : Machine) (keys : Nat → Keyboard) : Option (Reply Nat) := do
  let cycles ← runCycles keys m.config.cyclesPerFrame 0 m #[]
  match cycles.result with
  | .error _ => return cycles
  | .ok ran =>
    let reply ← tick cycles.machine
    return ⟨.ok ran, reply.machine, cycles.notices ++ reply.notices⟩

def program (bytes : List UInt8) : Option (List UInt8) :=
  if Rom.hasHeader bytes then
    if Rom.headerSize ≤ bytes.length then some (bytes.drop Rom.headerSize) else none
  else some bytes

def loadRom (m : Machine) (bytes : List UInt8) : Option (Reply Unit) := do
  let program ← program bytes
  let remarks : Array Notice :=
    if Rom.hasHeader bytes then #[.remark (.headerSkipped Rom.headerSize)] else #[]
  if m.romLimit < program.length then
    return ⟨.error (.romTooLarge program.length m.romLimit), m, remarks⟩
  else
    let memory ← load m.memory m.config.loadAddress.toNat 0 program
    return ⟨.ok (), { m with memory, rom := none },
      remarks.push (.remark (.programLoaded program.length m.config.loadAddress))⟩

def loadFile (m : Machine) (files : Files) (name : String) : Option (Reply Unit) :=
  match files name with
  | .error e => return ⟨.error (.unreadable e), m, #[]⟩
  | .ok bytes => do
    let reply ← loadRom m bytes
    match reply.result with
    | .error _ => return reply
    | .ok _ => return { reply with machine := { reply.machine with rom := some name } }

def restart (m : Machine) (entropy : Random.Key) : Option Machine := do
  let display ← initialise m.display
  let memory ← loadFonts m.memory.clear
  return {
    config := m.config
    memory
    display
    rom := m.rom
    random := .start m.config.seed entropy }

def reset (m : Machine) (files : Files) (entropy : Random.Key) : Option (Reply Unit) := do
  let restarted ← restart m entropy
  match m.rom with
  | none => return ⟨.ok (), restarted, #[]⟩
  | some name => loadFile restarted files name

def apply (m : Machine) : Operation → Option (Reply Answer)
  | .cycle keys => do return (← cycle m keys).map .outcome
  | .opcode keys o => do return (← executeOpcode m keys o).map .instruction
  | .instruction keys i => do return (← perform m keys i).map fun _ => .done
  | .tick => do return (← tick m).map fun _ => .done
  | .frame keys => do return (← frame m keys).map .cycles
  | .loadRom bytes => do return (← loadRom m bytes).map fun _ => .done
  | .loadFile files name => do return (← loadFile m files name).map fun _ => .done
  | .reset files entropy => do return (← reset m files entropy).map fun _ => .done
  | .loadFonts => do return ⟨.ok .done, { m with memory := ← loadFonts m.memory }, #[]⟩
  | .push address => do return ⟨.ok .done, { m with stack := ← push m.stack address }, #[]⟩
  | .pop => do
    let (address, stack) ← pop m.stack
    return ⟨.ok (.address address), { m with stack }, #[]⟩
  | .dump => do return ⟨.ok (.text (← dump m.display)), m, #[]⟩

/-! ## Every check passes -/

section Lemmas

variable {c : Config} {m : Machine} {keys : Keyboard}

theorem planes_le (h : m.WellFormed c) : m.display.planes.size ≤ 8 := by
  have := Config.accepted_iff.mp h.accepted
  have := h.planes
  omega

theorem perform_eq (h : m.WellFormed c) (i : Instruction) :
    perform m keys i = some (m.perform keys i) := by
  simp [perform, execute_eq (planes_le h) h.pointer, Machine.perform]

theorem pollKey_eq : pollKey m keys = some (m.pollKey keys) := by
  unfold pollKey Machine.pollKey
  cases keys.pressed? with
  | none => rfl
  | some key =>
    simp [set_eq m.keyRegister.isLt]
    rfl

theorem fetch_eq : fetch m = some m.fetch := by
  have hpc : m.pc.toNat < 2 ^ 16 := m.pc.toNat_lt
  have hadd : add word m.pc.toNat 2 = some (m.pc.toNat + 2) := add_word (by omega)
  unfold fetch Machine.fetch
  split
  · rfl
  · simp [hadd]

theorem cycle_eq (h : m.WellFormed c) : cycle m keys = some (m.cycle keys) := by
  unfold cycle Machine.cycle
  split
  · exact pollKey_eq
  · rw [fetch_eq]
    cases m.fetch with
    | error e => rfl
    | ok t => simp [perform_eq (h.advance t.instruction.size)]

theorem executeOpcode_eq (h : m.WellFormed c) (opcode : UInt16) :
    executeOpcode m keys opcode = some (m.executeOpcode keys opcode) := by
  unfold executeOpcode Machine.executeOpcode
  simp only [readWord_eq, Option.bind_eq_bind, Option.bind_some]
  cases m.decode opcode (m.memory.word m.pc.toNat) (m.pc - 2) with
  | error e => rfl
  | ok i =>
    have hsize : i.size = 2 ∨ i.size = 4 := by cases i <;> simp [Instruction.size]
    have hsub : sub i.size.toNat 2 = some (i.size.toNat - 2) :=
      sub_eq (by rcases hsize with h | h <;> rw [h] <;> decide)
    have hrest : UInt16.ofNat (i.size.toNat - 2) = i.size - 2 := by
      rcases hsize with h | h <;> rw [h] <;> rfl
    simp [hsub, hrest, perform_eq (h.advance (i.size - 2))]

theorem tick_eq : tick m = some m.tick := by
  by_cases hsound : m.sound = 0
  · simp [tick, Machine.tick, countDown, hsound]
  · have hpos : 0 < m.sound.toNat :=
      Nat.pos_iff_ne_zero.mpr fun h => hsound (UInt8.toNat_inj.mp h)
    have hsub : sub m.sound.toNat 1 = some (m.sound.toNat - 1) := sub_eq hpos
    have hless : UInt8.ofNat (m.sound.toNat - 1) = m.sound - 1 := by
      rw [← UInt8.toNat_inj, UInt8.toNat_sub_of_le _ _ hpos]
      simpa using Nat.lt_of_le_of_lt (Nat.sub_le _ 1) m.sound.toNat_lt
    simp [tick, Machine.tick, countDown, hsound, hpos, hsub, hless]

theorem runCycles_eq {keys : Nat → Keyboard} {budget ran : Nat} {told : Array Notice}
    (h : m.WellFormed c) (hran : ran + budget < 2 ^ 64) :
    runCycles keys budget ran m told = some (Machine.runCycles keys budget ran m told) := by
  induction budget generalizing m ran told with
  | zero => rfl
  | succ budget ih =>
    have hadd : add word ran 1 = some (ran + 1) := add_word (by omega)
    have hrest (told : Array Notice) :
        runCycles keys budget (ran + 1) (m.cycle (keys ran)).machine told = _ :=
      ih (h.cycle (keys ran)) (by omega)
    simp only [runCycles, Machine.runCycles, cycle_eq h, hadd, hrest, Option.bind_eq_bind,
      Option.bind_some]
    split
    · rfl
    · cases (m.cycle (keys ran)).result <;> rfl

theorem frame_eq {keys : Nat → Keyboard} (h : m.WellFormed c) (hc : c.cyclesPerFrame < 2 ^ 64) :
    frame m keys = some (m.frame keys) := by
  have hrun : runCycles keys m.config.cyclesPerFrame 0 m #[] = _ :=
    runCycles_eq h (by rw [h.config]; omega)
  simp only [frame, Machine.frame, hrun, tick_eq, Option.bind_eq_bind, Option.bind_some]
  cases (Machine.runCycles keys m.config.cyclesPerFrame 0 m #[]).result <;> rfl

theorem program_eq (bytes : List UInt8) : program bytes = some (Rom.program bytes) := by
  unfold program Rom.program
  cases hheader : Rom.hasHeader bytes with
  | false => rfl
  | true =>
    have hsize : Rom.headerSize ≤ bytes.length :=
      of_decide_eq_true (Bool.and_eq_true_iff.mp hheader).1
    simp [hsize]

theorem loadRom_eq (h : m.WellFormed c) (bytes : List UInt8) :
    loadRom m bytes = some (m.loadRom bytes) := by
  have hmemory := h.memory
  have hsize := (Config.accepted_iff.mp h.accepted).2.1
  simp only [loadRom, program_eq, Option.bind_eq_bind, Option.bind_some, Machine.loadRom]
  split
  · rfl
  · next hfits =>
    have haddress : m.config.loadAddress.toNat < 2 ^ 16 := m.config.loadAddress.toNat_lt
    unfold Machine.romLimit at hfits
    rw [load_eq (by omega)]
    rfl

theorem loadFile_eq (h : m.WellFormed c) (files : Files) (name : String) :
    loadFile m files name = some (m.loadFile files name) := by
  unfold loadFile Machine.loadFile
  cases files name with
  | error e => rfl
  | ok bytes =>
    simp only [loadRom_eq h, Option.bind_eq_bind, Option.bind_some]
    cases (m.loadRom bytes).result <;> rfl

theorem restart_eq (entropy : Random.Key) : restart m entropy = some (m.restart entropy) := by
  simp [restart, initialise_eq, Machine.restart]

theorem reset_eq (h : m.WellFormed c) (files : Files) (entropy : Random.Key) :
    reset m files entropy = some (m.reset files entropy) := by
  simp only [reset, restart_eq, Option.bind_eq_bind, Option.bind_some, Machine.reset]
  cases m.rom with
  | none => rfl
  | some name => exact loadFile_eq (h.restart entropy) files name

/-- No operation on a well-formed machine meets an index or a number out of its range. -/
theorem apply_eq (h : m.WellFormed c) (hc : c.cyclesPerFrame < 2 ^ 64) (op : Operation) :
    apply m op = some (op.apply m) := by
  cases op with
  | cycle keys => simp [apply, cycle_eq h, Operation.apply]
  | opcode keys o => simp [apply, executeOpcode_eq h, Operation.apply]
  | instruction keys i => simp [apply, perform_eq h, Operation.apply]
  | tick => simp [apply, tick_eq, Operation.apply]
  | frame keys => simp [apply, frame_eq h hc, Operation.apply]
  | loadRom bytes => simp [apply, loadRom_eq h, Operation.apply]
  | loadFile files name => simp [apply, loadFile_eq h, Operation.apply]
  | reset files entropy => simp [apply, reset_eq h, Operation.apply]
  | loadFonts => simp [apply, Operation.apply, Machine.loadFonts]
  | push address => simp [apply, push_eq h.pointer, Operation.apply, Machine.push]
  | pop => simp [apply, pop_eq h.pointer, Operation.apply, Machine.pop]
  | dump => simp [apply, dump_eq (planes_le h), Operation.apply]

end Lemmas

end Chip8.Checked

namespace Chip8.Machine

/-- Machines exist for the accepted configurations. Whatever is done to them, they keep their
configuration and the sizes of everything, and all checks of the next operation pass. Only a frame
counts, up to a number of cycles which is a word of the host. -/
theorem invariant_and_checks_pass :
    (∀ c entropy, (∃ m, create c entropy = .ok m) ↔
      0x200 ≤ c.memorySize ∧ c.memorySize ≤ 0x10000 ∧ 1 ≤ c.planes ∧ c.planes ≤ 8 ∧
        0 < c.cyclesPerFrame) ∧
    ∀ c entropy m₀, create c entropy = .ok m₀ → ∀ ops,
      let m := Operation.run m₀ ops
      m.config = c ∧ m.memory.bytes.size = c.memorySize ∧ m.display.planes.size = c.planes ∧
        (∀ b ∈ m.display.planes, b.cells.toArray.size = m.display.width * m.display.height) ∧
        m.stack.pointer < 16 ∧ m.keyRegister.val < 16 ∧
        (c.cyclesPerFrame < 2 ^ Checked.word → ∀ op, Checked.apply m op = some (op.apply m)) := by
  refine ⟨fun c entropy => exists_create_iff.trans Config.accepted_iff, ?_⟩
  intro c entropy m₀ hm₀ ops
  have h := (wellFormed_of_create hm₀).run ops
  exact ⟨h.config, h.memory, h.planes, fun b _ => b.cells.size_toArray, h.pointer,
    Fin.isLt _, fun hc op => Checked.apply_eq h hc op⟩

theorem checks_pass_on_standard :
    ∃ m, create (.standard .chip8) default = .ok m ∧ ∀ ops op,
      Checked.apply (Operation.run m ops) op = some (op.apply (Operation.run m ops)) := by
  have hbounds : 0x200 ≤ 0x1000 ∧ 0x1000 ≤ 0x10000 ∧ 1 ≤ 1 ∧ 1 ≤ 8 ∧ 0 < 13 := by decide
  obtain ⟨m, hm⟩ := (invariant_and_checks_pass.1 (.standard .chip8) default).mpr hbounds
  refine ⟨m, hm, fun ops => ?_⟩
  exact (invariant_and_checks_pass.2 _ _ m hm ops).2.2.2.2.2.2 (by decide)

end Chip8.Machine
