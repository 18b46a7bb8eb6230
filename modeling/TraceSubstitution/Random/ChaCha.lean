/-!
# Streams of random words

A seed determines an endless stream of 32-bit words: the ChaCha key stream with
twelve rounds, a 64-bit block counter that starts at zero, and stream number
zero. The key is expanded from the seed by a multiplicative generator whose
output is permuted; each step yields four bytes of the key.
-/

namespace TraceSubstitution

namespace ChaCha

/-- The sixteen words that the rounds work on. -/
abbrev Block := Vector UInt32 16

/-- Rotates a word to the left by `k` bits. -/
def rotateLeft (x : UInt32) (k : UInt32) : UInt32 := (x <<< k) ||| (x >>> (32 - k))

/-- Mixes the words at four positions. -/
def quarterRound (s : Block) (a b c d : Fin 16) : Block :=
  let s := s.set a (s[a] + s[b])
  let s := s.set d (rotateLeft (s[d] ^^^ s[a]) 16)
  let s := s.set c (s[c] + s[d])
  let s := s.set b (rotateLeft (s[b] ^^^ s[c]) 12)
  let s := s.set a (s[a] + s[b])
  let s := s.set d (rotateLeft (s[d] ^^^ s[a]) 8)
  let s := s.set c (s[c] + s[d])
  s.set b (rotateLeft (s[b] ^^^ s[c]) 7)

/-- Mixes the columns and then the diagonals of the block. -/
def doubleRound (s : Block) : Block :=
  let s := quarterRound s 0 4 8 12
  let s := quarterRound s 1 5 9 13
  let s := quarterRound s 2 6 10 14
  let s := quarterRound s 3 7 11 15
  let s := quarterRound s 0 5 10 15
  let s := quarterRound s 1 6 11 12
  let s := quarterRound s 2 7 8 13
  quarterRound s 3 4 9 14

/-- The block of a key and a counter before the rounds. -/
def initial (key : Vector UInt32 8) (counter : UInt64) : Block :=
  #v[0x61707865, 0x3320646e, 0x79622d32, 0x6b206574,
    key[0], key[1], key[2], key[3], key[4], key[5], key[6], key[7],
    counter.toUInt32, (counter >>> 32).toUInt32, 0, 0]

/-- The sixteen words of the stream that belong to a counter. -/
def block (key : Vector UInt32 8) (counter : UInt64) : Block :=
  let start := initial key counter
  let mixed := (List.range 6).foldl (fun s _ => doubleRound s) start
  Vector.zipWith (· + ·) start mixed

/-- One step of the generator that expands a seed. -/
def expandStep (state : UInt64) : UInt64 := state * 6364136223846793005 + 11634580027462260723

/-- The four bytes of the key that a state of the generator yields. -/
def expandOutput (state : UInt64) : UInt32 :=
  let x := (((state >>> 18) ^^^ state) >>> 27).toUInt32
  let k := (state >>> 59).toUInt32
  (x >>> k) ||| (x <<< ((32 - k) % 32))

/-- The states of the generator after one, two, … steps. -/
def expandStates : Nat → UInt64 → List UInt64
  | 0, _ => []
  | n + 1, state => expandStep state :: expandStates n (expandStep state)

theorem length_expandStates (n : Nat) (state : UInt64) :
    (expandStates n state).length = n := by
  induction n generalizing state with
  | zero => rfl
  | succ n ih => simp [expandStates, ih]

/-- The key of a seed. -/
def keyOfSeed (seed : UInt64) : Vector UInt32 8 :=
  ⟨((expandStates 8 seed).map expandOutput).toArray, by simp [length_expandStates]⟩

end ChaCha

/-- The first `count` random words of a seed. -/
def randomWords (seed : UInt64) (count : Nat) : List UInt32 :=
  let key := ChaCha.keyOfSeed seed
  let blocks := (List.range ((count + 15) / 16)).flatMap fun k =>
    (ChaCha.block key k.toUInt64).toList
  blocks.take count

theorem length_randomWords (seed : UInt64) (count : Nat) :
    (randomWords seed count).length = count := by
  simp only [randomWords, List.length_take, List.length_flatMap, Vector.length_toList,
    List.map_const', List.length_range, List.sum_replicate_nat]
  omega

end TraceSubstitution
