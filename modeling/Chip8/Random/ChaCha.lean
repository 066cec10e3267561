/-! # ChaCha key stream

ChaCha with twelve rounds, a 64-bit block counter and no nonce, as a stream of words.
-/

namespace Chip8.ChaCha

abbrev Block := Vector UInt32 16

def rotateLeft (w : UInt32) (n : UInt32) : UInt32 := (w <<< n) ||| (w >>> (32 - n))

def quarterRound (s : Block) (a b c d : Fin 16) : Block :=
  let s := s.set a (s[a] + s[b])
  let s := s.set d (rotateLeft (s[d] ^^^ s[a]) 16)
  let s := s.set c (s[c] + s[d])
  let s := s.set b (rotateLeft (s[b] ^^^ s[c]) 12)
  let s := s.set a (s[a] + s[b])
  let s := s.set d (rotateLeft (s[d] ^^^ s[a]) 8)
  let s := s.set c (s[c] + s[d])
  s.set b (rotateLeft (s[b] ^^^ s[c]) 7)

def doubleRound (s : Block) : Block :=
  let s := quarterRound s 0 4 8 12
  let s := quarterRound s 1 5 9 13
  let s := quarterRound s 2 6 10 14
  let s := quarterRound s 3 7 11 15
  let s := quarterRound s 0 5 10 15
  let s := quarterRound s 1 6 11 12
  let s := quarterRound s 2 7 8 13
  quarterRound s 3 4 9 14

/-- The state before the rounds: constants, key, counter and an empty nonce. -/
def initial (key : Vector UInt32 8) (counter : UInt64) : Block :=
  #v[0x61707865, 0x3320646E, 0x79622D32, 0x6B206574,
    key[0], key[1], key[2], key[3], key[4], key[5], key[6], key[7],
    counter.toUInt32, (counter >>> 32).toUInt32, 0, 0]

def doubleRounds : Nat := 6

def block (key : Vector UInt32 8) (counter : UInt64) : Block :=
  let start := initial key counter
  let mixed := doubleRounds.repeat doubleRound start
  Vector.ofFn fun i => start[i] + mixed[i]

def word (key : Vector UInt32 8) (n : Nat) : UInt32 :=
  (block key (UInt64.ofNat (n / 16)))[n % 16]

end Chip8.ChaCha
