import Chip8.Proofs.Decoding.Encoding
import Chip8.Proofs.Text.Hex

/-! # Reading assembly text

An assembler gets an instruction back from its text, but for the register of an offset jump, which
is not written. So no two instructions share a text, but for such jumps.
-/

namespace Chip8

/-- An operand as far as it can be told without the mnemonic. -/
inductive Token
  | register (x : Register)
  | registers (x y : Register)
  | marked (n : Nat)
  | long (n : Nat)
  /-- A place or a bare number: `F` may be either. -/
  | plain (text : String)
  deriving DecidableEq, Repr

namespace Token

def registerOf (c : Char) : Register := Fin.ofNat 16 (Hex.value [c])

def read : List Char → Token
  | ['V', c] => .register (registerOf c)
  | ['V', c, '-', 'V', d] => .registers (registerOf c) (registerOf d)
  | '#' :: cs => if 'L' ∈ cs then .long (Hex.value cs.dropLast) else .marked (Hex.value cs)
  | cs => .plain (String.ofList cs)

def number (text : String) : Nat := Hex.value text.toList

theorem exists_registerOf (x : Register) :
    ∃ c, (Hex.upper 1 x.val).toList = [c] ∧ registerOf c = x := by
  obtain ⟨c, _, hc⟩ := Hex.toList_upper_one x.isLt
  refine ⟨c, hc, ?_⟩
  rw [registerOf, ← hc, Hex.value_upper]
  exact Fin.ofNat_val_eq_self x

variable {cs : List Char}

theorem read_of_digits (h : ∀ c ∈ cs, c ∈ Hex.digits) : read cs = .plain (String.ofList cs) := by
  have hletter : 'V' ∉ cs := fun hv => absurd (h _ hv) (by decide)
  have hmark : '#' ∉ cs := fun hm => absurd (h _ hm) (by decide)
  unfold read
  split
  · simp at hletter
  · simp at hletter
  · simp at hmark
  · rfl

theorem read_marked (h : ∀ c ∈ cs, c ∈ Hex.digits) : read ('#' :: cs) = .marked (Hex.value cs) :=
  if_neg fun hl => absurd (h _ hl) (by decide)

theorem read_long (cs : List Char) : read ('#' :: (cs ++ ['L'])) = .long (Hex.value cs) := by
  simp [read]

end Token

namespace Operand

def token : Operand → Token
  | .place p => .plain p.text
  | .register x => .register x
  | .registers x y => .registers x y
  | .byte b => .marked b.toNat
  | .nibble n => .marked n.toNat
  | .count n => .plain (Hex.upper 1 n.toNat)
  | .target a => .plain (Hex.upper 3 a.toNat)
  | .address a => .marked a.toNat
  | .longAddress a => .long a.toNat

theorem comma_not_mem_upper (width n : Nat) : ',' ∉ (Hex.upper width n).toList :=
  fun h => absurd (Hex.mem_digits_of_mem_upper h) (by decide)

theorem comma_not_mem_text (p : Operand) : ',' ∉ p.text.toList := by
  cases p with
  | place p => cases p <;> decide
  | _ => simp [text, String.toList_append, comma_not_mem_upper]

theorem read_text (p : Operand) : Token.read p.text.toList = p.token := by
  have hdigits (width n : Nat) : ∀ c ∈ (Hex.upper width n).toList, c ∈ Hex.digits :=
    fun _ => Hex.mem_digits_of_mem_upper
  cases p with
  | place p => cases p <;> rfl
  | register x =>
    obtain ⟨c, hc, hx⟩ := Token.exists_registerOf x
    simp [text, token, String.toList_append, hc, Token.read, hx]
  | registers x y =>
    obtain ⟨c, hc, hx⟩ := Token.exists_registerOf x
    obtain ⟨d, hd, hy⟩ := Token.exists_registerOf y
    simp [text, token, String.toList_append, hc, hd, Token.read, hx, hy]
  | byte | nibble | address =>
    rw [text, String.toList_append]
    exact (Token.read_marked (hdigits _ _)).trans (congrArg Token.marked (Hex.value_upper _ _))
  | longAddress a =>
    rw [text, String.toList_append, String.toList_append]
    exact (Token.read_long _).trans (congrArg Token.long (Hex.value_upper _ _))
  | count | target =>
    exact (Token.read_of_digits (hdigits _ _)).trans (congrArg Token.plain String.ofList_toList)

end Operand

namespace Assembly

def mnemonicOf (text : List Char) : String := String.ofList (text.takeWhile (· ≠ '\t'))

def fieldsOf (text : List Char) : List (List Char) :=
  match text.dropWhile (· ≠ '\t') with
  | [] => []
  | _ :: operands => operands.splitOn ','

theorem toList_text (a : Assembly) : a.text.toList = a.mnemonic.toList ++
    if a.operands = [] then [] else '\t' :: [','].intercalate (a.operands.map (·.text.toList)) := by
  unfold text
  split
  · next h => simp [h]
  · next h =>
    rw [if_neg h]
    simp [String.toList_append, String.toList_intercalate, Function.comp_def]

variable {a : Assembly}

theorem ne_tab (h : '\t' ∉ a.mnemonic.toList) :
    ∀ c ∈ a.mnemonic.toList, decide (c ≠ '\t') = true := by
  intro c hc
  have hne : c ≠ '\t' := ne_of_mem_of_not_mem hc h
  exact decide_eq_true hne

theorem mnemonicOf_text (h : '\t' ∉ a.mnemonic.toList) :
    mnemonicOf a.text.toList = a.mnemonic := by
  rw [mnemonicOf, toList_text, List.takeWhile_append_of_pos (ne_tab h)]
  split <;> simp

theorem fieldsOf_text (h : '\t' ∉ a.mnemonic.toList) :
    fieldsOf a.text.toList = a.operands.map (·.text.toList) := by
  rw [fieldsOf, toList_text, List.dropWhile_append_of_pos (ne_tab h)]
  by_cases hnil : a.operands = []
  · rw [if_pos hnil, hnil]
    rfl
  · rw [if_neg hnil]
    refine List.splitOn_intercalate ',' ?_ (by simpa using hnil)
    simpa using fun p _ => p.comma_not_mem_text

end Assembly

def Alu.ofMnemonic? : String → Option Alu
  | "LD" => some .move
  | "OR" => some .or
  | "AND" => some .and
  | "XOR" => some .xor
  | "ADD" => some .add
  | "SUB" => some .sub
  | "SHR" => some .shiftRight
  | "SUBN" => some .subReverse
  | "SHL" => some .shiftLeft
  | _ => none

namespace Instruction

def ofMnemonic? : String → Option Instruction
  | "CLS" => some .clear
  | "RET" => some .ret
  | "SCRIGHT" => some .scrollRight
  | "SCLEFT" => some .scrollLeft
  | "EXIT" => some .exit
  | "LOW" => some (.setResolution .low)
  | "HIGH" => some (.setResolution .high)
  | "COMPATIBILITY" => some .compatibility
  | "AUDIO" => some .loadAudio
  | _ => none

/-- The instructions `LD`, but for those between two registers. Here `F` and `B` are places. -/
def ofLoad? : List Token → Option Instruction
  | [.register x, .marked n] => some (.setByte x (UInt8.ofNat n))
  | [.plain "I", .marked n] => some (.setIndex (UInt16.ofNat n))
  | [.plain "I", .long n] => some (.setIndexLong (UInt16.ofNat n))
  | [.register x, .plain "DT"] => some (.readDelay x)
  | [.register x, .plain "K"] => some (.awaitKey x)
  | [.register x, .plain "[I]"] => some (.loadRegisters x)
  | [.register x, .plain "R"] => some (.loadFlags x)
  | [.plain "DT", .register x] => some (.setDelay x)
  | [.plain "ST", .register x] => some (.setSound x)
  | [.plain "F", .register x] => some (.smallGlyph x)
  | [.plain "HF", .register x] => some (.largeGlyph x)
  | [.plain "B", .register x] => some (.storeDecimal x)
  | [.plain "R", .register x] => some (.saveFlags x)
  | [.plain "[I]", .register x] => some (.storeRegisters x)
  | [.plain "[I]", .registers x y] => some (.storeRange x y)
  | [.registers x y, .plain "[I]"] => some (.loadRange x y)
  | _ => none

/-- The instruction with the given operands. A jump by an offset gets the register that an opcode
with its address names. -/
def ofTokens? : String → List Token → Option Instruction
  | mnemonic, [] => ofMnemonic? mnemonic
  | "JP", [.plain a] => some (.jump (UInt16.ofNat (Token.number a)))
  | "JP", [.plain "[V0]", .marked n] =>
    some (.jumpOffset (Opcode.x (UInt16.ofNat n)) (UInt16.ofNat n))
  | "CALL", [.plain a] => some (.call (UInt16.ofNat (Token.number a)))
  | "SE", [.register x, .marked n] => some (.skip (.isByte x (UInt8.ofNat n)))
  | "SE", [.register x, .register y] => some (.skip (.same x y))
  | "SNE", [.register x, .marked n] => some (.skip (.isNotByte x (UInt8.ofNat n)))
  | "SNE", [.register x, .register y] => some (.skip (.different x y))
  | "SKP", [.register x] => some (.skip (.keyDown x))
  | "SKNP", [.register x] => some (.skip (.keyUp x))
  | "ADD", [.register x, .marked n] => some (.addByte x (UInt8.ofNat n))
  | "ADD", [.plain "I", .register x] => some (.addIndex x)
  | "RND", [.register x, .marked n] => some (.random x (UInt8.ofNat n))
  | "DRW", [.register x, .register y, .marked n] => some (.draw x y (UInt8.ofNat n))
  | "XDRW", [.register x, .register y] => some (.drawLarge x y)
  | "SCDOWN", [.plain n] => some (.scrollDown (UInt8.ofNat (Token.number n)))
  | "SCUP", [.plain n] => some (.scrollUp (UInt8.ofNat (Token.number n)))
  | "PLANE", [.marked n] => some (.selectPlanes (UInt8.ofNat n))
  | mnemonic, [.register x, .register y] => (Alu.ofMnemonic? mnemonic).map (.alu · x y)
  | "LD", operands => ofLoad? operands
  | _, _ => none

def ofText? (text : String) : Option Instruction :=
  ofTokens? (Assembly.mnemonicOf text.toList) ((Assembly.fieldsOf text.toList).map Token.read)

/-- The instruction with the register that an opcode names for it. -/
def settled : Instruction → Instruction
  | .jumpOffset _ a => .jumpOffset (Opcode.x a) a
  | i => i

theorem ofTokens?_assembly (i : Instruction) :
    ofTokens? i.assembly.mnemonic (i.assembly.operands.map Operand.token) = some i.settled := by
  -- Each row computes; what is left to show is that the numbers of an instruction fit again.
  cases i with
  | alu op => cases op <;> rfl
  | setResolution r => cases r <;> rfl
  | skip c =>
    cases c with
    | isByte | isNotByte =>
      refine congrArg some ?_
      simp [settled]
    | _ => rfl
  | jump | call | setByte | addByte | setIndex | jumpOffset | random | draw | scrollDown | scrollUp
  | setIndexLong | selectPlanes =>
    refine congrArg some ?_
    simp [settled, Token.number]
  | _ => rfl

theorem tab_not_mem_mnemonic (i : Instruction) : '\t' ∉ i.assembly.mnemonic.toList := by
  cases i with
  | skip c => cases c <;> simp [assembly, Condition.assembly]
  | alu op => cases op <;> simp [assembly, Alu.mnemonic]
  | setResolution r => cases r <;> simp [assembly]
  | _ => simp [assembly]

theorem ofText?_text (i : Instruction) : ofText? i.text = some i.settled := by
  have htab := i.tab_not_mem_mnemonic
  rw [ofText?, text, Assembly.mnemonicOf_text htab, Assembly.fieldsOf_text htab, List.map_map]
  simp only [Function.comp_def, Operand.read_text]
  exact ofTokens?_assembly i

example : ofText? "JP\t[V0],#234" = some (.jumpOffset 2 0x234) := by cbv

theorem settled_eq_of_text {i j : Instruction} (h : i.text = j.text) : i.settled = j.settled := by
  have h := congrArg ofText? h
  rw [ofText?_text, ofText?_text] at h
  exact Option.some.inj h

theorem settled_eq_or (i : Instruction) : i.settled = i ∨ ∃ x a, i = .jumpOffset x a := by
  cases i with
  | jumpOffset x a => exact Or.inr ⟨x, a, rfl⟩
  | _ => exact Or.inl rfl

theorem settled_of_decode {v : Variant} {o next : UInt16} {i : Instruction}
    (h : decode v o next = .ok i) : i.settled = i := by
  rcases settled_eq_or i with hi | ⟨x, a, rfl⟩
  · exact hi
  · rw [settled, ← eq_of_decode_jumpOffset h]

theorem eq_or_jumpOffset_of_settled {i j : Instruction} (h : i.settled = j.settled) :
    i = j ∨ ∃ x y a, i = .jumpOffset x a ∧ j = .jumpOffset y a := by
  rcases settled_eq_or i with hi | ⟨x, a, rfl⟩ <;> rcases settled_eq_or j with hj | ⟨y, b, rfl⟩
  · exact Or.inl (hi.symm.trans (h.trans hj))
  · exact Or.inr ⟨_, y, b, hi.symm.trans h, rfl⟩
  · exact Or.inr ⟨x, _, a, rfl, hj.symm.trans h.symm⟩
  · obtain rfl : a = b := (Instruction.jumpOffset.inj h).2
    exact Or.inr ⟨x, y, a, rfl, rfl⟩

/-- The texts tell instructions apart, but for jumps that add different registers to the same
address, of which an opcode encodes only one. -/
theorem text_unambiguous :
    (∀ i j : Instruction,
        i.text = j.text ↔ i = j ∨ ∃ x y a, i = .jumpOffset x a ∧ j = .jumpOffset y a) ∧
      ∀ v w o o' next next' i j, decode v o next = .ok i → decode w o' next' = .ok j →
        i.text = j.text → i = j := by
  refine ⟨fun i j => ⟨fun h => eq_or_jumpOffset_of_settled (settled_eq_of_text h), ?_⟩, ?_⟩
  · rintro (rfl | ⟨x, y, a, rfl, rfl⟩)
    · rfl
    · rfl
  · intro v w o o' next next' i j hi hj h
    rw [← settled_of_decode hi, ← settled_of_decode hj, settled_eq_of_text h]

theorem text_unambiguous_on_offset_jumps :
    (∃ i j, decode .chip8 0x00E0 0 = .ok i ∧ decode .xoChip 0x0AE0 7 = .ok j ∧
        i.text = j.text ∧ i = j) ∧
      (jumpOffset 2 0x234).text = (jumpOffset 3 0x234).text ∧
      decode .chip8 0xB234 0 = .ok (.jumpOffset 2 0x234) ∧
      ∀ w o next x, decode w o next = .ok (.jumpOffset x 0x234) → x = 2 := by
  have hclear : decode .chip8 0x00E0 0 = .ok .clear := rfl
  have hclear' : decode .xoChip 0x0AE0 7 = .ok .clear := rfl
  have hjump : decode .chip8 0xB234 0 = .ok (.jumpOffset 2 0x234) := rfl
  have hsame (x : Register) : (jumpOffset x 0x234).text = (jumpOffset 2 0x234).text :=
    (text_unambiguous.1 _ _).mpr (Or.inr ⟨x, 2, 0x234, rfl, rfl⟩)
  refine ⟨⟨_, _, hclear, hclear', rfl, ?_⟩, (hsame 3).symm, hjump, fun w o next x h => ?_⟩
  · exact text_unambiguous.2 _ _ _ _ _ _ _ _ hclear hclear' rfl
  · cases text_unambiguous.2 _ _ _ _ _ _ _ _ h hjump (hsame x)
    rfl

end Instruction

end Chip8
