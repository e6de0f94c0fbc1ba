/-!
# Random choices

A source makes uniform choices among the first numbers and tosses coins. What is built on a source
works with every source, so a statement about all sources is one about all sequences of choices.

Choices are made from the keystream of the ChaCha cipher with twelve rounds. The key is spread from
a seed of one word, and the stream is read in words of sixty-four bits.
-/

namespace SolverAudit

class Source (σ : Type) where
  upTo : (greatest : Nat) → σ → Fin (greatest + 1) × σ
  coin : σ → Bool × σ

namespace Source

variable {σ α : Type} [Source σ]

def pick (first : α) (others : List α) (source : σ) : α × σ :=
  let (i, source) := upTo others.length source
  ((first :: others)[i], source)

theorem mem_pick (first : α) (others : List α) (source : σ) :
    (pick first others source).1 ∈ first :: others :=
  List.getElem_mem _

end Source

/-! ### The keystream -/

abbrev CipherState := Vector UInt32 16

namespace CipherState

def rotate (word : UInt32) (bits : UInt32) : UInt32 :=
  (word <<< bits) ||| (word >>> (32 - bits))

def quarterRound (s : CipherState) (a b c d : Fin 16) : CipherState :=
  let s := s.set a (s[a] + s[b])
  let s := s.set d (rotate (s[d] ^^^ s[a]) 16)
  let s := s.set c (s[c] + s[d])
  let s := s.set b (rotate (s[b] ^^^ s[c]) 12)
  let s := s.set a (s[a] + s[b])
  let s := s.set d (rotate (s[d] ^^^ s[a]) 8)
  let s := s.set c (s[c] + s[d])
  s.set b (rotate (s[b] ^^^ s[c]) 7)

/-- A round on the columns and a round on the diagonals. -/
def doubleRound (s : CipherState) : CipherState :=
  let s := s.quarterRound 0 4 8 12
  let s := s.quarterRound 1 5 9 13
  let s := s.quarterRound 2 6 10 14
  let s := s.quarterRound 3 7 11 15
  let s := s.quarterRound 0 5 10 15
  let s := s.quarterRound 1 6 11 12
  let s := s.quarterRound 2 7 8 13
  s.quarterRound 3 4 9 14

/-- The block of keystream for a state: six double rounds, and the state added to the result. -/
def block (s : CipherState) : CipherState :=
  (s.doubleRound.doubleRound.doubleRound.doubleRound.doubleRound.doubleRound).zipWith (· + ·) s

end CipherState

structure Keystream where
  key : Vector UInt32 8
  counter : UInt64
  /-- What is left of the current block. -/
  pending : List UInt64

namespace Keystream

/-- The words of a key, spread from a seed by a linear congruential generator whose output is
rotated by its own high bits. -/
def spread : (count : Nat) → UInt64 → List UInt32
  | 0, _ => []
  | count + 1, state =>
    let state := state * 6364136223846793005 + 11634580027462260723
    let word := (((state >>> 18) ^^^ state) >>> 27).toUInt32
    let bits := (state >>> 59).toUInt32
    ((word >>> bits) ||| (word <<< ((32 - bits) % 32))) :: spread count state

def ofSeed (seed : UInt64) : Keystream where
  key := Vector.ofFn fun i : Fin 8 => (spread 8 seed).getD i 0
  counter := 0
  pending := []

def constants : Vector UInt32 4 :=
  #v[0x61707865, 0x3320646e, 0x79622d32, 0x6b206574]

/-- The cipher state of a block: the constants, the key, the block number and two zeros. -/
def state (s : Keystream) : CipherState :=
  let position : Vector UInt32 4 := #v[s.counter.toUInt32, (s.counter >>> 32).toUInt32, 0, 0]
  constants ++ s.key ++ position

/-- Words of thirty-two bits joined in pairs, the low half first. -/
def joined : List UInt32 → List UInt64
  | low :: high :: rest => (high.toUInt64 <<< 32 ||| low.toUInt64) :: joined rest
  | _ => []

def next (s : Keystream) : UInt64 × Keystream :=
  match s.pending with
  | word :: pending => (word, { s with pending })
  | [] =>
    let words := joined s.state.block.toList
    (words.headD 0, { s with counter := s.counter + 1, pending := words.tail })

def wordCount : Nat := Nat.pow 2 64

/-- How many words one choice may reject. Each is rejected with a chance below one half. -/
def patience : Nat := 4096

/-- The greatest low half of a product that keeps the choice uniform: the largest multiple of the
bound by a power of two within a word, less one. -/
def zone (n : Nat) : Nat := n * Nat.pow 2 (63 - n.log2) - 1

/-- A choice below a bound that fits in a word: the high half of the product of a word and the
bound, words whose low half lies beyond the zone being rejected. -/
def belowWithin : (attempts : Nat) → (n : Nat) → Keystream → Nat × Keystream
  | 0, n, s =>
    let (word, s) := s.next
    (word.toNat * n / wordCount, s)
  | attempts + 1, n, s =>
    let (word, s) := s.next
    let product := word.toNat * n
    if product % wordCount ≤ zone n then (product / wordCount, s) else belowWithin attempts n s

/-- A choice among the numbers up to a greatest one, which a word itself makes if there are no fewer
of them than values of a word. -/
def choice (greatest : Nat) (s : Keystream) : Nat × Keystream :=
  if greatest + 1 < wordCount then belowWithin patience (greatest + 1) s
  else
    let (word, s) := s.next
    (word.toNat, s)

instance : Source Keystream where
  upTo greatest s :=
    let (n, s) := s.choice greatest
    (⟨n % (greatest + 1), Nat.mod_lt n (Nat.succ_pos greatest)⟩, s)
  coin s :=
    let (word, s) := s.next
    (word < 0x8000000000000000, s)

end Keystream

end SolverAudit
