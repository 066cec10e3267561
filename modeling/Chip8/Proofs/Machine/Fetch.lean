import Chip8.Proofs.Decoding.Variants
import Chip8.Proofs.Machine.Cycles
import Chip8.Proofs.Machine.WellFormed
import Chip8.Proofs.Memory.Access

/-! # Cycles without the fetch

Executing an opcode with the program counter past it is what a cycle does after its fetch, as long
as both find the same word after the opcode. They do if the memory divides the range of addresses,
and below XO-Chip that word does not matter.
-/

namespace Chip8

namespace Memory

/-- Wrapping an address to sixteen bits first changes nothing if the memory divides that range. -/
theorem word_add_two {m : Memory} (h : m.size ∣ 0x10000) (pc : UInt16) :
    m.word (pc + 2).toNat = m.word (pc.toNat + 2) := by
  have hpc : pc.toNat < 0x10000 := pc.toNat_lt
  have hadd : (pc + 2).toNat = (pc.toNat + 2) % 0x10000 := UInt16.toNat_add pc 2
  have hlt : (pc + 2).toNat < 0x10000 := (pc + 2).toNat_lt
  apply word_congr (by omega) (by omega)
  rw [hadd, Nat.mod_mod_of_dvd _ h]

end Memory

namespace Machine

variable {m : Machine} {keys : Keyboard}

def opcode (m : Machine) : UInt16 := m.memory.word m.pc.toNat

def stepped (m : Machine) : Machine := m.advance 2

/-- Nothing keeps the machine from a fetch at its program counter. -/
def Aligned (m : Machine) : Prop := m.pc.toNat % 2 = 0 ∨ m.config.allowMisaligned = true

/-- Both ways to execute find the same word after the opcode, or do not look at it. -/
def SameLiteral (m : Machine) : Prop := m.memory.size ∣ 0x10000 ∨ m.config.variant ≠ .xoChip

theorem pc_stepped_sub_two : m.stepped.pc - 2 = m.pc := UInt16.add_sub_cancel m.pc 2

theorem advance_stepped (i : Instruction) :
    m.stepped.advance (i.size - 2) = m.advance i.size := by
  have h : m.pc + 2 + (i.size - 2) = m.pc + i.size := by grind
  simp only [stepped, advance, h]

theorem decode_stepped (h : m.SameLiteral) :
    m.stepped.decode m.opcode (m.memory.word m.stepped.pc.toNat) (m.stepped.pc - 2) =
      m.decode m.opcode (m.memory.word (m.pc.toNat + 2)) m.pc := by
  rw [pc_stepped_sub_two]
  rcases h with h | h
  · exact congrArg (m.decode m.opcode · m.pc) (Memory.word_add_two h m.pc)
  · simp only [decode, stepped, advance,
      Instruction.decode_next h (m.memory.word (m.pc.toNat + 2))]

theorem fetch_eq (h : m.Aligned) :
    m.fetch = (m.decode m.opcode (m.memory.word (m.pc.toNat + 2)) m.pc).map
      fun i => ⟨m.pc, m.opcode, i⟩ := by
  unfold fetch
  rw [if_neg]
  · rfl
  · rcases h with h | h <;> simp [h]

theorem machine_loadRom {bytes : List UInt8} (hheader : Rom.hasHeader bytes = false)
    (hfits : bytes.length ≤ m.romLimit) :
    (m.loadRom bytes).machine =
      { m with memory := m.memory.load m.config.loadAddress.toNat bytes, rom := none } := by
  have hprogram := Rom.program_of_not_hasHeader hheader
  rw [← hprogram] at hfits
  rw [(loadRom_of_le hfits).2, hprogram]

theorem executeOpcode_of_decode {o : UInt16} {i : Instruction}
    (h : Instruction.decode m.config.variant o (m.memory.word m.pc.toNat) = .ok i) :
    m.executeOpcode keys o =
      ⟨.ok i, (m.advance (i.size - 2)).execute keys i, i.notices (m.advance (i.size - 2)).pc⟩ := by
  simp only [executeOpcode, decode, h, Except.mapError, perform]

theorem executeOpcode_of_error {o : UInt16} {e : Fault}
    (h : (m.executeOpcode keys o).result = .error e) :
    m.executeOpcode keys o = ⟨.error e, m, #[]⟩ := by
  unfold executeOpcode at h ⊢
  split at h
  · cases h; rfl
  · cases h

/-- A cycle is the execution of the opcode at the program counter, and a record of it. -/
theorem cycle_eq_executeOpcode (hw : m.waiting = false) (ha : m.Aligned) (hl : m.SameLiteral) :
    m.cycle keys =
      let reply := m.stepped.executeOpcode keys m.opcode
      match reply.result with
      | .ok i =>
        ⟨.ok (.executed ⟨m.pc, m.opcode, i⟩), reply.machine,
          reply.notices.push (.event (.executed ⟨m.pc, m.opcode, i⟩))⟩
      | .error e => ⟨.error e, m, reply.notices⟩ := by
  have hd := decode_stepped hl
  have hm : m.stepped.memory = m.memory := rfl
  simp only [cycle, hw, Bool.false_eq_true, if_false, fetch_eq ha, executeOpcode, hm, hd]
  cases m.decode m.opcode (m.memory.word (m.pc.toNat + 2)) m.pc with
  | error e => rfl
  | ok i => simp only [Except.map, advance_stepped]

theorem cycle_result_iff (keys : Keyboard) (hw : m.waiting = false) (ha : m.Aligned)
    (hl : m.SameLiteral) :
    let direct := m.stepped.executeOpcode keys m.opcode
    (∀ t, (m.cycle keys).result = .ok (.executed t) ↔
      t.pc = m.pc ∧ t.opcode = m.opcode ∧ direct.result = .ok t.instruction) ∧
    (∀ e, (m.cycle keys).result = .error e ↔ direct.result = .error e) := by
  simp only [cycle_eq_executeOpcode hw ha hl]
  cases (m.stepped.executeOpcode keys m.opcode).result with
  | error e => simp
  | ok i =>
    refine ⟨fun ⟨pc, o, j⟩ => ?_, by simp⟩
    simp [eq_comm]

theorem cycle_longIndex (keys : Keyboard) (hw : m.waiting = false) (ha : m.Aligned)
    (hv : m.config.variant = .xoChip) (ho : m.opcode = 0xF000) :
    (m.cycle keys).result =
      .ok (.executed ⟨m.pc, 0xF000, .setIndexLong (m.memory.word (m.pc.toNat + 2))⟩) := by
  simp only [cycle, hw, Bool.false_eq_true, if_false, fetch_eq ha, ho, decode, hv]
  rfl

theorem executeOpcode_longIndex (keys : Keyboard) (hv : m.config.variant = .xoChip) :
    (m.executeOpcode keys 0xF000).result = .ok (.setIndexLong (m.memory.word m.pc.toNat)) := by
  simp only [executeOpcode, decode, hv]
  rfl

end Machine

/-! ## A literal across the top of the addresses -/

namespace Seam

def config (size : Nat) : Config where
  variant := .xoChip
  dialect := .xoChip
  memorySize := size
  planes := 1
  loadAddress := 0
  startAddress := 0xFFFE
  allowMisaligned := false
  cyclesPerFrame := 1
  seed := none

/-- A long index load in the last word, and a literal after it that does not begin at cell 0. -/
def byte (size cell : Nat) : UInt8 :=
  if cell = 0xFFFE % size then 0xF0 else if cell = 0x10000 % size then 0x01 else 0x00

def program (size : Nat) : List UInt8 := (List.range size).map (byte size)

variable {size : Nat}

theorem byte_high (size : Nat) : byte size (0xFFFE % size) = 0xF0 := if_pos rfl

theorem byte_low (h : 2 < size) : byte size (0xFFFF % size) = 0x00 := by
  have hhigh : 0xFFFF % size ≠ 0xFFFE % size := Memory.mod_add_ne (k := 1) (by omega) (by omega) _
  have hnext : 0x10000 % size ≠ 0xFFFF % size := Memory.mod_add_ne (k := 1) (by omega) (by omega) _
  rw [byte, if_neg hhigh, if_neg hnext.symm]

theorem byte_literal (h : 2 < size) : byte size (0x10000 % size) = 0x01 := by
  have hhigh : 0x10000 % size ≠ 0xFFFE % size := Memory.mod_add_ne (k := 2) (by omega) h _
  rw [byte, if_neg hhigh, if_pos rfl]

theorem byte_zero (h : ¬ size ∣ 0x10000) : byte size 0 ≠ 0x01 := by
  have hliteral : 0 ≠ 0x10000 % size := fun h' => h (Nat.dvd_of_mod_eq_zero h'.symm)
  rw [byte, if_neg hliteral]
  split <;> decide

theorem hasHeader_program : Rom.hasHeader (program size) = false := by
  rw [Bool.eq_false_iff]
  intro h
  have hmem : (0x48 : UInt8) ∈ program size :=
    (List.isPrefixOf_iff_prefix.mp (Bool.and_eq_true_iff.mp h).2).subset (by decide)
  obtain ⟨cell, _, hcell⟩ := List.mem_map.mp hmem
  unfold byte at hcell
  split at hcell
  · cases hcell
  · split at hcell <;> cases hcell

theorem accepted_config (hmin : 0x200 ≤ size) (hmax : size ≤ 0x10000) : (config size).Accepted :=
  Config.accepted_iff.mpr ⟨hmin, hmax, Nat.le_refl 1, by simp [config], Nat.one_pos⟩

theorem length_program : (program size).length = size := by simp [program]

theorem exists_loaded (hmin : 0x200 ≤ size) (hmax : size ≤ 0x10000) :
    ∃ m : Machine, m.Reachable ∧ m.config = config size ∧ m.memory.size = size ∧
      m.waiting = false ∧ m.pc = 0xFFFE ∧ ∀ a, m.memory.read a = byte size (a % size) := by
  obtain ⟨m, hm⟩ : ∃ m, Machine.create (config size) default = .ok m :=
    Machine.exists_create_iff.mpr (accepted_config hmin hmax)
  obtain ⟨hconfig, hwaiting, hpc⟩ := Machine.start_of_create hm
  have hsize : m.memory.size = size := (Machine.wellFormed_of_create hm).memory
  have hfits : (program size).length ≤ m.romLimit := by
    simp [length_program, Machine.romLimit, hsize, hconfig, config]
  have hread (a : Nat) : (m.memory.load 0 (program size)).read a = byte size (a % size) := by
    have hcell : a % size < (program size).length := by
      rw [length_program]
      exact Nat.mod_lt a (by omega)
    have hsame : a % (m.memory.load 0 (program size)).size =
        (0 + a % size) % (m.memory.load 0 (program size)).size := by simp [hsize]
    have hle : (program size).length ≤ m.memory.size := by simp [hsize, length_program]
    rw [Memory.read_congr hsame, Memory.read_load hle hcell]
    simp [program]
  have hload := Machine.machine_loadRom hasHeader_program hfits
  have haddress : m.config.loadAddress.toNat = 0 := by rw [hconfig]; rfl
  rw [haddress] at hload
  refine ⟨_, ⟨_, _, m, [.loadRom (program size)], hm, rfl⟩, ?_⟩
  simp only [Operation.run_cons, Operation.run_nil, Operation.apply, Reply.map, hload]
  exact ⟨hconfig, by simp [hsize], hwaiting, hpc, hread⟩

theorem exists_disagreement (hmin : 0x200 ≤ size) (hmax : size ≤ 0x10000)
    (hdvd : ¬ size ∣ 0x10000) :
    ∃ m : Machine, m.Reachable ∧ m.config.variant = .xoChip ∧ m.config.memorySize = size ∧
      m.waiting = false ∧ m.Aligned ∧ m.pc = 0xFFFE ∧ m.opcode = 0xF000 ∧ ∀ keys,
        ∃ a b, a ≠ b ∧ (m.cycle keys).result = .ok (.executed ⟨m.pc, m.opcode, .setIndexLong a⟩) ∧
          (m.stepped.executeOpcode keys m.opcode).result = .ok (.setIndexLong b) := by
  obtain ⟨m, hm, hconfig, hsize, hwaiting, hpc, hread⟩ := exists_loaded hmin hmax
  have haligned : m.Aligned := Or.inl (by rw [hpc]; rfl)
  have hopcode : m.opcode = 0xF000 := by
    have hhigh : m.memory.read 0xFFFE = 0xF0 := (hread _).trans (byte_high size)
    have hlow : m.memory.read 0xFFFF = 0x00 := (hread _).trans (byte_low (by omega))
    simp [Machine.opcode, hpc, Memory.word, UInt64.size, hhigh, hlow]
  have hcycle : m.memory.read 0x10000 = 0x01 := (hread _).trans (byte_literal (by omega))
  have hdirect : m.memory.read 0 ≠ 0x01 := by
    rw [hread, Nat.zero_mod]
    exact byte_zero hdvd
  refine ⟨m, hm, by rw [hconfig]; rfl, by rw [hconfig]; rfl, hwaiting, haligned, hpc, hopcode, ?_⟩
  intro keys
  have hvariant : m.stepped.config.variant = .xoChip := congrArg Config.variant hconfig
  have hfetched := m.cycle_longIndex keys hwaiting haligned hvariant hopcode
  have hfound := m.stepped.executeOpcode_longIndex keys hvariant
  rw [← hopcode] at hfetched hfound
  refine ⟨_, _, ?_, hfetched, hfound⟩
  have hwrapped : m.stepped.memory.word m.stepped.pc.toNat = m.memory.word 0 := by
    have hpc' : m.stepped.pc = 0 := by simp [Machine.stepped, Machine.advance, hpc]
    have hmemory : m.stepped.memory = m.memory := rfl
    rw [hpc', hmemory, UInt16.toNat_zero]
  intro heq
  apply hdirect
  have hbytes := congrArg (fun w : UInt16 => w.toNat / 256) (heq.trans hwrapped)
  simp only [Memory.toNat_word_div, hpc] at hbytes
  exact (UInt8.toNat_inj.mp hbytes).symm.trans hcycle

end Seam

/-- Executing an opcode with the program counter past it does what a cycle does that fetches it, up
to the record of the cycle. Only a memory that does not divide the range of addresses makes a
difference, to the one instruction that takes a literal. -/
theorem Machine.cycle_agrees_with_executeOpcode :
    (∀ (m : Machine) (keys : Keyboard), m.waiting = false → m.Aligned → m.SameLiteral →
      let fetched := m.cycle keys
      let direct := m.stepped.executeOpcode keys m.opcode
      (∀ t, fetched.result = .ok (.executed t) ↔
        t.pc = m.pc ∧ t.opcode = m.opcode ∧ direct.result = .ok t.instruction) ∧
      (∀ i, direct.result = .ok i → fetched.machine = direct.machine ∧
        fetched.notices = direct.notices.push (.event (.executed ⟨m.pc, m.opcode, i⟩))) ∧
      (∀ e, fetched.result = .error e ↔ direct.result = .error e) ∧
      (∀ e, fetched.result = .error e → fetched.machine = m ∧ direct.machine = m.stepped ∧
        fetched.notices = direct.notices)) ∧
    ∀ size, 0x200 ≤ size → size ≤ 0x10000 → ¬ size ∣ 0x10000 →
      ∃ m : Machine, m.Reachable ∧ m.config.variant = .xoChip ∧ m.config.memorySize = size ∧
        m.waiting = false ∧ m.Aligned ∧ m.pc = 0xFFFE ∧ m.opcode = 0xF000 ∧ ∀ keys,
          ∃ a b, a ≠ b ∧
            (m.cycle keys).result = .ok (.executed ⟨m.pc, m.opcode, .setIndexLong a⟩) ∧
            (m.stepped.executeOpcode keys m.opcode).result = .ok (.setIndexLong b) := by
  refine ⟨fun m keys hw ha hl => ?_, fun size => Seam.exists_disagreement⟩
  obtain ⟨hok, herror⟩ := cycle_result_iff keys hw ha hl
  refine ⟨hok, fun i hi => ?_, herror, fun e he => ?_⟩
  · simp only [cycle_eq_executeOpcode hw ha hl, hi, and_self]
  · have hd := (herror e).mp he
    rw [cycle_of_error he, executeOpcode_of_error hd]
    exact ⟨rfl, rfl, rfl⟩

/-- A program of one instruction on a usual machine, and a memory of 768 bytes. -/
theorem Machine.cycle_agrees_on_setByte :
    ∃ new, create (.standard .chip8) default = .ok new ∧
      let keys := Keypad.released.keyboard
      let m := (new.loadRom [0x6A, 0x05]).machine
      (m.cycle keys).result = .ok (.executed ⟨0x200, 0x6A05, .setByte 10 5⟩) ∧
        (m.cycle keys).machine = (m.stepped.executeOpcode keys 0x6A05).machine ∧
      ∃ m : Machine, m.Reachable ∧ m.config.memorySize = 768 ∧ m.pc = 0xFFFE ∧
        m.opcode = 0xF000 := by
  obtain ⟨new, hnew⟩ := exists_create_iff.mpr (rfl : (Config.standard .chip8).Accepted)
  obtain ⟨hconfig, hwaiting, hpc⟩ := start_of_create hnew
  have hsize : new.memory.size = 0x1000 := (wellFormed_of_create hnew).memory
  refine ⟨new, hnew, ?_⟩
  intro keys m
  have hfits : [0x6A, 0x05].length ≤ new.romLimit := by
    rw [romLimit, hsize, hconfig]
    decide
  have haddress : new.config.loadAddress.toNat = 0x200 := by rw [hconfig]; rfl
  have hm : m = { new with memory := new.memory.load 0x200 [0x6A, 0x05], rom := none } := by
    rw [← haddress]
    exact machine_loadRom rfl hfits
  have hmpc : m.pc = 0x200 := by rw [hm, hpc]; rfl
  have hmconfig : m.config = .standard .chip8 := by rw [hm, hconfig]
  have hopcode : m.opcode = 0x6A05 := by
    have hstart : m.pc.toNat = 0x200 + 0 := by rw [hmpc]; rfl
    rw [opcode, hstart, hm, Memory.word_load (by rw [hsize]; decide) (by decide) (by decide)]
    simp
  have hagree := cycle_agrees_with_executeOpcode
  obtain ⟨hok, hsame, -⟩ := hagree.1 m keys (by rw [hm, hwaiting]) (Or.inl (by rw [hmpc]; rfl))
    (Or.inr (by rw [hmconfig]; decide))
  have hdirect : (m.stepped.executeOpcode keys m.opcode).result = .ok (.setByte 10 5) := by
    rw [hopcode, executeOpcode_of_decode]
    rw [stepped, advance, hmconfig]
    rfl
  obtain ⟨n, hn, _, hnsize, _, _, hnpc, hnopcode, _⟩ :=
    hagree.2 768 (by decide) (by decide) (by decide)
  refine ⟨(hok _).mpr ⟨hmpc.symm, hopcode.symm, hdirect⟩, ?_, n, hn, hnsize, hnpc, hnopcode⟩
  rw [(hsame _ hdirect).1, hopcode]

end Chip8
