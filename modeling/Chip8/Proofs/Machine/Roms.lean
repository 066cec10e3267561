import Chip8.Proofs.Machine.WellFormed
import Chip8.Proofs.Memory.Access

/-! # Loading programs

A program that fits is copied to its place byte by byte, without going round the end of the memory,
and nothing else changes but where the program came from. Whatever keeps a program from being loaded
leaves the machine as it was.
-/

namespace Chip8

namespace Memory

variable {m n : Memory} {start : Nat} {data : List UInt8}

/-- `n` is `m` with `data` written from `start` on, no byte of it round the end. -/
structure Placed (m : Memory) (start : Nat) (data : List UInt8) (n : Memory) : Prop where
  size : n.size = m.size
  cell : ∀ j < data.length, m.cell (start + j) = start + j
  block : ∀ j (h : j < data.length), n.bytes[start + j]? = some data[j]
  rest : ∀ i, i < start ∨ start + data.length ≤ i → n.bytes[i]? = m.bytes[i]?

theorem placed_load (h : data.length ≤ m.size - start) :
    m.Placed start data (m.load start data) where
  size := size_load m start data
  cell := by
    intro j hj
    exact Nat.mod_eq_of_lt (by omega)
  block := by
    intro j hj
    rw [getElem?_bytes (by rw [size_load]; omega), read_load (by omega) hj]
  rest := by
    intro i hi
    -- Below the end of the memory no byte of the block comes round; beyond it there are no bytes.
    rcases Nat.lt_or_ge i m.size with hlt | hge
    · rw [getElem?_bytes hlt, getElem?_bytes (by rwa [size_load]), read_load_of_ne]
      intro o ho
      rw [Nat.mod_eq_of_lt hlt, Nat.mod_eq_of_lt (by omega)]
      omega
    · have hsize : (m.load start data).bytes.size = m.bytes.size := size_load m start data
      rw [Array.getElem?_eq_none hge, Array.getElem?_eq_none (hsize ▸ hge)]

end Memory

theorem Rom.program_eq (bytes : List UInt8) :
    program bytes =
      if 13 ≤ bytes.length ∧ ("HPHP48-A".toList.map fun c => c.toNat.toUInt8) <+: bytes then
        bytes.drop 13
      else bytes := by
  have hmark : headerMark = "HPHP48-A".toList.map fun c => c.toNat.toUInt8 := by decide
  have hheader : hasHeader bytes = true ↔
      13 ≤ bytes.length ∧ ("HPHP48-A".toList.map fun c => c.toNat.toUInt8) <+: bytes := by
    rw [← hmark, hasHeader, Bool.and_eq_true, decide_eq_true_iff, List.isPrefixOf_iff_prefix]
    rfl
  simp only [program, hheader, headerSize]

namespace Machine

variable {m : Machine} {bytes : List UInt8} {files : Files} {name : String}
  {rom : Option String} {reply : Reply Unit}

/-- What comes of loading a program: if it fits, the machine holds it, and `rom` is where it came
from; if it does not, nothing happens. -/
structure Loads (m : Machine) (bytes : List UInt8) (rom : Option String) (reply : Reply Unit) :
    Prop where
  fits_iff : reply.result = .ok () ↔
    (Rom.program bytes).length ≤ m.memory.size - m.config.loadAddress.toNat
  placed : reply.result = .ok () → ∃ memory, reply.machine = { m with memory, rom } ∧
    m.memory.Placed m.config.loadAddress.toNat (Rom.program bytes) memory
  refused : reply.result ≠ .ok () →
    reply.result = .error (.romTooLarge (Rom.program bytes).length
      (m.memory.size - m.config.loadAddress.toNat)) ∧ reply.machine = m

theorem Loads.of_le (h : (Rom.program bytes).length ≤ m.romLimit) (hresult : reply.result = .ok ())
    (hmachine : reply.machine =
      { m with memory := m.memory.load m.config.loadAddress.toNat (Rom.program bytes), rom }) :
    m.Loads bytes rom reply where
  fits_iff := ⟨fun _ => h, fun _ => hresult⟩
  placed := fun _ => ⟨_, hmachine, Memory.placed_load h⟩
  refused := fun hne => absurd hresult hne

theorem Loads.of_lt (h : m.romLimit < (Rom.program bytes).length)
    (hresult : reply.result = .error (.romTooLarge (Rom.program bytes).length m.romLimit))
    (hmachine : reply.machine = m) : m.Loads bytes rom reply where
  fits_iff := by
    rw [hresult]
    constructor
    · rintro ⟨⟩
    · intro hfits
      exact absurd hfits (Nat.not_le.mpr h)
  placed := by
    rw [hresult]
    rintro ⟨⟩
  refused := fun _ => ⟨hresult, hmachine⟩

theorem loads_loadRom : m.Loads bytes none (m.loadRom bytes) := by
  rcases Nat.lt_or_ge m.romLimit (Rom.program bytes).length with hlarge | hfits
  · obtain ⟨hresult, hmachine⟩ := loadRom_of_lt hlarge
    exact .of_lt hlarge hresult hmachine
  · obtain ⟨hresult, hmachine⟩ := loadRom_of_le hfits
    exact .of_le hfits hresult hmachine

theorem loads_loadFile (hf : files name = .ok bytes) :
    m.Loads bytes (some name) (m.loadFile files name) := by
  rcases Nat.lt_or_ge m.romLimit (Rom.program bytes).length with hlarge | hfits
  · obtain ⟨hresult, hmachine⟩ := loadRom_of_lt hlarge
    apply Loads.of_lt hlarge <;> simp only [loadFile, hf, hresult, hmachine]
  · obtain ⟨hresult, hmachine⟩ := loadRom_of_le hfits
    apply Loads.of_le hfits <;> simp only [loadFile, hf, hresult, hmachine]

theorem loadFile_of_unreadable {e : ReadError} (hf : files name = .error e) :
    m.loadFile files name = ⟨.error (.unreadable e), m, #[]⟩ := by
  simp only [loadFile, hf]

/-- A program, which is what follows a transfer header if there is one, is loaded if it fits behind
the load address, and then byte by byte in its place. A file is loaded as its bytes are, and named.
Where there is nothing to load or no room, the machine stays as it was. -/
theorem rom_loading_exact (m : Machine) :
    (∀ bytes, Rom.program bytes =
      if 13 ≤ bytes.length ∧ ("HPHP48-A".toList.map fun c => c.toNat.toUInt8) <+: bytes then
        bytes.drop 13
      else bytes) ∧
    (∀ bytes, m.Loads bytes none (m.loadRom bytes)) ∧
    (∀ files name bytes, files name = .ok bytes →
      m.Loads bytes (some name) (m.loadFile files name)) ∧
    ∀ files name e, files name = .error e →
      (m.loadFile files name).result = .error (.unreadable e) ∧
        (m.loadFile files name).machine = m := by
  refine ⟨Rom.program_eq, fun bytes => loads_loadRom, fun files name bytes => loads_loadFile, ?_⟩
  intro files name e hf
  rw [loadFile_of_unreadable hf]
  exact ⟨rfl, rfl⟩

/-- A program behind a transfer header, one byte too many, and a file that is not there. -/
theorem rom_loading_exact_on_files :
    ∃ m, create (.standard .superChip) default = .ok m ∧
      let header : List UInt8 := [0x48, 0x50, 0x48, 0x50, 0x34, 0x38, 0x2D, 0x41, 0, 0, 0, 0, 0]
      let files : Files := fun name =>
        if name = "game" then .ok (header ++ [0x00, 0xFF])
        else if name = "large" then .ok (header ++ List.replicate 3585 0)
        else .error .notFound
      let game := m.loadFile files "game"
      let large := game.machine.loadFile files "large"
      let gone := game.machine.loadFile files "gone"
      game.result = .ok () ∧ game.machine.rom = some "game" ∧
        game.machine.memory.bytes[0x201]? = some 0xFF ∧
        large.result = .error (.romTooLarge 3585 3584) ∧ large.machine = game.machine ∧
        gone.result = .error (.unreadable .notFound) ∧ gone.machine = game.machine := by
  obtain ⟨m, hm⟩ := exists_create_iff.mpr (rfl : (Config.standard .superChip).Accepted)
  refine ⟨m, hm, ?_⟩
  have hw := wellFormed_of_create hm
  intro header files game large gone
  have hprogram (rest : List UInt8) : Rom.program (header ++ rest) = rest := by
    have hheader : Rom.hasHeader (header ++ rest) = true := by
      simp [Rom.hasHeader, Rom.headerMark, Rom.headerSize, header]
    rw [Rom.program, if_pos hheader]
    rfl
  have haddress : m.config.loadAddress.toNat = 512 := by
    rw [hw.config]
    rfl
  have hsize : m.memory.size = 4096 := hw.memory
  have hgame : m.Loads (header ++ [0x00, 0xFF]) (some "game") game :=
    (rom_loading_exact m).2.2.1 files "game" _ rfl
  have hok : game.result = .ok () := by
    rw [hgame.fits_iff, hprogram, hsize, haddress]
    decide
  obtain ⟨memory, hmachine, hplaced⟩ := hgame.placed hok
  rw [haddress, hprogram] at hplaced
  obtain ⟨-, -, hlarge, hgone⟩ := rom_loading_exact game.machine
  have hlarge : game.machine.Loads (header ++ List.replicate 3585 0) (some "large") large :=
    hlarge files "large" _ rfl
  have hlimit : game.machine.memory.size - game.machine.config.loadAddress.toNat = 3584 := by
    simp only [hmachine, hplaced.size, hsize, haddress]
  have hrefused : large.result ≠ .ok () := by
    rw [ne_eq, hlarge.fits_iff, hprogram, hlimit, List.length_replicate]
    decide
  have hlost := hlarge.refused hrefused
  rw [hprogram, hlimit, List.length_replicate] at hlost
  refine ⟨hok, ?_, ?_, hlost.1, hlost.2, hgone files "gone" _ rfl⟩
  · rw [hmachine]
  · rw [hmachine]
    exact hplaced.block 1 (by decide)

end Machine

end Chip8
