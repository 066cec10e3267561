import Chip8.Proofs.Machine.Faults

/-! # Programs in place

A new machine whose program was loaded where it starts executes the first word of the program
first.
-/

namespace Chip8

/-- The program fits, has no transfer header, and stands where machines of the configuration
start. -/
structure Config.Places (c : Config) (bytes : List UInt8) : Prop where
  start : c.startAddress = c.loadAddress
  even : c.startAddress.toNat % 2 = 0
  header : Rom.hasHeader bytes = false
  fits : c.loadAddress.toNat + bytes.length ≤ c.memorySize

namespace Machine

variable {c : Config} {entropy : Random.Key} {m : Machine} {bytes : List UInt8} {files : Files}
  {name : String}

/-- The machine executes `t` next, and nothing keeps it from doing so. -/
structure Starting (c : Config) (t : Trace) (m : Machine) : Prop where
  config : m.config = c
  waiting : m.waiting = false
  finished : m.finished = false
  resting : m.resting = false
  fetch : m.fetch = .ok t

theorem Starting.rom {t : Trace} (h : Starting c t m) (rom : Option String) :
    Starting c t { m with rom } :=
  ⟨h.config, h.waiting, h.finished, h.resting, h.fetch⟩

theorem loadRom_of_places (hm : create c entropy = .ok m) (hp : c.Places bytes) :
    (m.loadRom bytes).result = .ok () ∧
      (m.loadRom bytes).machine =
        { m with memory := m.memory.load c.loadAddress.toNat bytes, rom := none } := by
  have hw := wellFormed_of_create hm
  have hfits : bytes.length ≤ m.romLimit := by
    have := hp.fits
    rw [romLimit, hw.memory, hw.config]
    omega
  constructor
  · rw [← Rom.program_of_not_hasHeader hp.header] at hfits
    exact (loadRom_of_le hfits).1
  · rw [machine_loadRom hp.header hfits, hw.config]

theorem loadFile_of_places (hm : create c entropy = .ok m) (hp : c.Places bytes)
    (hf : files name = .ok bytes) :
    m.loadFile files name =
      let loaded := m.loadRom bytes
      ⟨.ok (), { loaded.machine with rom := some name }, loaded.notices⟩ := by
  simp only [loadFile, hf, (loadRom_of_places hm hp).1]

/-- Whatever follows it, a word of the program is what the machine executes once it gets there. -/
theorem fetch_of_word {n : Machine} {o : Nat} {i : Instruction} (hm : create c entropy = .ok m)
    (hp : c.Places bytes) (hconfig : n.config = c)
    (hmemory : n.memory = (m.loadRom bytes).machine.memory)
    (hpc : n.pc.toNat = c.loadAddress.toNat + o) (heven : o % 2 = 0) (ho : o + 1 < bytes.length)
    (hi : ∀ next,
      Instruction.decode c.variant (bytes[o].toUInt16 * 256 + bytes[o + 1].toUInt16) next = .ok i) :
    n.fetch = .ok ⟨n.pc, bytes[o].toUInt16 * 256 + bytes[o + 1].toUInt16, i⟩ := by
  have hsize : m.memory.size = c.memorySize := (wellFormed_of_create hm).memory
  have hfits := hp.fits
  have hloaded : n.memory = m.memory.load c.loadAddress.toNat bytes := by
    rw [hmemory, (loadRom_of_places hm hp).2]
  have hopcode : n.opcode = bytes[o].toUInt16 * 256 + bytes[o + 1].toUInt16 := by
    have haddress : n.pc.toNat < 0x10000 := n.pc.toNat_lt
    rw [opcode, hloaded, hpc]
    exact Memory.word_load (by omega) ho (by omega)
  have haligned : n.Aligned := by
    have hstart := hp.even
    rw [hp.start] at hstart
    exact Or.inl (by omega)
  refine fetch_eq_ok_iff.mpr ⟨haligned, ?_, rfl, hopcode.symm⟩
  rw [hopcode, hconfig]
  exact hi _

section Starting

variable {high low : UInt8} {rest : List UInt8} {i : Instruction}

theorem fetch_of_places (hm : create c entropy = .ok m) (hp : c.Places (high :: low :: rest))
    (hi : ∀ next, Instruction.decode c.variant (high.toUInt16 * 256 + low.toUInt16) next = .ok i) :
    (m.loadRom (high :: low :: rest)).machine.fetch =
      .ok ⟨c.startAddress, high.toUInt16 * 256 + low.toUInt16, i⟩ := by
  obtain ⟨hconfig, _, hpc⟩ := start_of_create hm
  have hmachine := (loadRom_of_places hm hp).2
  have hstart : (m.loadRom (high :: low :: rest)).machine.pc = c.startAddress := by
    rw [hmachine, hpc]
  have hfirst : (m.loadRom (high :: low :: rest)).machine.fetch = .ok ⟨_, _, i⟩ :=
    fetch_of_word (o := 0) hm hp (by rw [hmachine, hconfig]) rfl
      (by rw [hstart, hp.start, Nat.add_zero]) rfl (by simp) hi
  rwa [hstart] at hfirst

theorem starting_loadRom (hm : create c entropy = .ok m) (hp : c.Places (high :: low :: rest))
    (hi : ∀ next, Instruction.decode c.variant (high.toUInt16 * 256 + low.toUInt16) next = .ok i) :
    Starting c ⟨c.startAddress, high.toUInt16 * 256 + low.toUInt16, i⟩
      (m.loadRom (high :: low :: rest)).machine := by
  have hfetch := fetch_of_places hm hp hi
  rw [(loadRom_of_places hm hp).2] at hfetch ⊢
  obtain ⟨_, memory, _, rfl⟩ := create_eq_ok_iff.mp hm
  exact ⟨rfl, rfl, rfl, rfl, hfetch⟩

theorem starting_loadFile (hm : create c entropy = .ok m) (hp : c.Places (high :: low :: rest))
    (hf : files name = .ok (high :: low :: rest))
    (hi : ∀ next, Instruction.decode c.variant (high.toUInt16 * 256 + low.toUInt16) next = .ok i) :
    Starting c ⟨c.startAddress, high.toUInt16 * 256 + low.toUInt16, i⟩
      (m.loadFile files name).machine := by
  rw [loadFile_of_places hm hp hf]
  exact (starting_loadRom hm hp hi).rom name

end Starting

end Machine

end Chip8
