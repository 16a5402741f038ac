/-!
The hash function Keccak-256 on bytes. The state is twenty-five words; the word of column `x` and
row `y` stands at `x + 5 * y`.
-/

namespace Solwright.Keccak

abbrev State := Array UInt64

def word (a : State) (i : Nat) : UInt64 :=
  a.getD i 0

def turned (w : UInt64) (n : Nat) : UInt64 :=
  if n = 0 then w else (w <<< n.toUInt64) ||| (w >>> (64 - n).toUInt64)

def build (f : Nat → UInt64) : State :=
  Array.ofFn fun i : Fin 25 => f i

def parity (a : State) (x : Nat) : UInt64 :=
  word a x ^^^ word a (x + 5) ^^^ word a (x + 10) ^^^ word a (x + 15) ^^^ word a (x + 20)

/-- Every word takes in the parities of the two columns beside its own. -/
def mixColumns (a : State) : State :=
  let c := (List.range 5).map (parity a)
  build fun i =>
    word a i ^^^ c.getD ((i + 4) % 5) 0 ^^^ turned (c.getD ((i + 1) % 5) 0) 1

def turns : List Nat :=
  [0, 1, 62, 28, 27, 36, 44, 6, 55, 20, 3, 10, 43, 25, 39, 41, 45, 15, 21, 8, 18, 2, 61, 56, 14]

/-- The words are turned and change places. -/
def permute (a : State) : State :=
  build fun i =>
    let source := (i % 5 + 3 * (i / 5)) % 5 + 5 * (i % 5)
    turned (word a source) (turns.getD source 0)

/-- Every word takes in the two words to its right. -/
def mixRows (a : State) : State :=
  build fun i =>
    let row := i - i % 5
    word a i ^^^ (~~~word a (row + (i + 1) % 5) &&& word a (row + (i + 2) % 5))

def roundConstants : List UInt64 :=
  [0x0000000000000001, 0x0000000000008082, 0x800000000000808a, 0x8000000080008000,
   0x000000000000808b, 0x0000000080000001, 0x8000000080008081, 0x8000000000008009,
   0x000000000000008a, 0x0000000000000088, 0x0000000080008009, 0x000000008000000a,
   0x000000008000808b, 0x800000000000008b, 0x8000000000008089, 0x8000000000008003,
   0x8000000000008002, 0x8000000000000080, 0x000000000000800a, 0x800000008000000a,
   0x8000000080008081, 0x8000000000008080, 0x0000000080000001, 0x8000000080008008]

def round (a : State) (constant : UInt64) : State :=
  let b := mixRows (permute (mixColumns a))
  b.setIfInBounds 0 (word b 0 ^^^ constant)

def rounds (a : State) : State :=
  roundConstants.foldl round a

def blockSize : Nat := 136

def wordOfBytes (bytes : List UInt8) : UInt64 :=
  bytes.foldr (fun b w => w <<< 8 ||| b.toUInt64) 0

def absorb (a : State) (block : List UInt8) : State :=
  rounds (build fun i =>
    if i < blockSize / 8 then word a i ^^^ wordOfBytes ((block.drop (8 * i)).take 8) else word a i)

def padded (bytes : List UInt8) : List UInt8 :=
  let gap := blockSize - bytes.length % blockSize
  if gap = 1 then bytes ++ [0x81]
  else bytes ++ 0x01 :: List.replicate (gap - 2) 0 ++ [0x80]

def blocks (bytes : List UInt8) : Nat → List (List UInt8)
  | 0 => []
  | n + 1 => bytes.take blockSize :: blocks (bytes.drop blockSize) n

def bytesOfWord (w : UInt64) : List UInt8 :=
  (List.range 8).map fun i => (w >>> (8 * i).toUInt64).toUInt8

def hash (bytes : List UInt8) : List UInt8 :=
  let all := padded bytes
  let final := (blocks all (all.length / blockSize)).foldl absorb (build fun _ => 0)
  (List.range 4).flatMap fun i => bytesOfWord (word final i)

end Solwright.Keccak
