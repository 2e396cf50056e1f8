namespace Chip8

structure Twister where
  words : Array UInt32
  used : Nat

namespace Twister

def length : Nat := 624

-- Places are counted around the state.
def word (words : Array UInt32) (i : Nat) : UInt32 :=
  (words[i % length]?).getD 0

def fill (seed : UInt32) : Array UInt32 :=
  (List.range (length - 1)).foldl (fun words k =>
    let before := word words k
    words.push ((before ^^^ (before >>> 30)) * 1812433253 + UInt32.ofNat (k + 1))) #[seed]

-- A walk over the places 1 to 623, around and around. After each round the last word is copied to
-- place 0, where the next round begins to look back.
structure Walk where
  words : Array UInt32
  place : Nat

-- Replaces the word at hand, given itself and the scattered word before it.
def Walk.stride (walk : Walk) (renew : Nat → UInt32 → UInt32 → UInt32) : Walk :=
  let i := walk.place
  let before := word walk.words (i - 1)
  let value := renew i (word walk.words i) (before ^^^ (before >>> 30))
  let words := walk.words.setIfInBounds i value
  if i + 1 < length then ⟨words, i + 1⟩ else ⟨words.setIfInBounds 0 value, 1⟩

-- The words of a number, the least significant first. Zero has one word.
def keyWords (n : Nat) : List UInt32 :=
  if n < 0x100000000 then [UInt32.ofNat n] else UInt32.ofNat n :: keyWords (n / 0x100000000)
termination_by n

-- The generator seeded with a number, of which the sign does not count.
def ofSeed (seed : Int) : Twister :=
  let key := (keyWords seed.natAbs).toArray
  let mixed := (List.range (max length key.size)).foldl (fun walk k =>
    let j := k % key.size
    walk.stride fun _ old before =>
      (old ^^^ (before * 1664525)) + key[j]?.getD 0 + UInt32.ofNat j) (⟨fill 19650218, 1⟩ : Walk)
  let walked := (List.range (length - 1)).foldl (fun walk _ =>
    walk.stride fun i old before => (old ^^^ (before * 1566083941)) - UInt32.ofNat i) mixed
  ⟨walked.words.setIfInBounds 0 0x80000000, length⟩

-- Renews every word of the state, in order and in place.
def renew (words : Array UInt32) : Array UInt32 :=
  (List.range length).foldl (fun words i =>
    let joined := (word words i &&& 0x80000000) ||| (word words (i + 1) &&& 0x7fffffff)
    let odd : UInt32 := if joined &&& 1 = 1 then 0x9908b0df else 0
    words.setIfInBounds i (word words (i + 397) ^^^ (joined >>> 1) ^^^ odd)) words

-- Spreads the entropy of a word over its bits.
def temper (w : UInt32) : UInt32 :=
  let w := w ^^^ (w >>> 11)
  let w := w ^^^ ((w <<< 7) &&& 0x9d2c5680)
  let w := w ^^^ ((w <<< 15) &&& 0xefc60000)
  w ^^^ (w >>> 18)

def draw (t : Twister) : UInt32 × Twister :=
  let t := if t.used < length then t else ⟨renew t.words, 0⟩
  (temper (word t.words t.used), { t with used := t.used + 1 })

-- The leading nine bits of words until they are below 256, which half of them are. So many words in a
-- row do not miss.
def drawByteWithin : Nat → Twister → UInt8 × Twister
  | 0, t => (0, t)
  | tries + 1, t =>
    let (w, t) := t.draw
    let bits := w >>> 23
    if bits < 256 then (bits.toUInt8, t) else drawByteWithin tries t

def drawByte (t : Twister) : UInt8 × Twister :=
  t.drawByteWithin 100000

end Twister
end Chip8
