/-
  Pseudo-random numbers: the Mersenne twister with a state of 624 words of 32 bits.  A seed of any
  size is cut into words, the lowest first, which are mixed into the state; each number takes two
  words and has 53 random bits.
-/

namespace Calculator

/-- The state of the generator: its words, and how many of them have been used. -/
structure Generator where
  words : Array UInt32
  used : Nat

namespace Generator

/-- How many words the state has. -/
def size : Nat := 624

/-- The words of a state that one word fixes. -/
def wordsOf (first : UInt32) : Array UInt32 :=
  (List.range (size - 1)).foldl (fun (ws : Array UInt32) k =>
    let w := ws.getD k 0
    ws.push ((1812433253 : UInt32) * (w ^^^ (w >>> 30)) + UInt32.ofNat (k + 1))) #[first]

/-- The words of 32 bits of a natural number, the lowest first; zero has one. -/
def wordsOfNat (n : Nat) : List UInt32 :=
  if n < 0x100000000 then [UInt32.ofNat n]
  else UInt32.ofNat (n % 0x100000000) :: wordsOfNat (n / 0x100000000)
termination_by n
decreasing_by omega

/-- The words of a state, the place of the next one to mix, and the place of the next key. -/
structure Mixing where
  words : Array UInt32
  place : Nat := 1
  key : Nat := 0

namespace Mixing

/-- Puts a word at the current place and goes on; after the last place comes the second, and the
first takes over the last word. -/
def put (m : Mixing) (w : UInt32) : Mixing :=
  let words := m.words.setIfInBounds m.place w
  if m.place + 1 < size then { m with words, place := m.place + 1 }
  else { m with words := words.setIfInBounds 0 (words.getD (size - 1) 0), place := 1 }

/-- The word that takes the place of the current one before anything is added. -/
def mixed (m : Mixing) (factor : UInt32) : UInt32 :=
  let previous := m.words.getD (m.place - 1) 0
  m.words.getD m.place 0 ^^^ ((previous ^^^ (previous >>> 30)) * factor)

/-- Mixes one key into the state. -/
def addKey (keys : Array UInt32) (m : Mixing) : Mixing :=
  let next := m.put (m.mixed 1664525 + keys.getD m.key 0 + UInt32.ofNat m.key)
  { next with key := if m.key + 1 < keys.size then m.key + 1 else 0 }

/-- Mixes the place of a word into it. -/
def addPlace (m : Mixing) : Mixing := m.put (m.mixed 1566083941 - UInt32.ofNat m.place)

end Mixing

/-- The generator that a seed fixes; the sign of a seed does not matter. -/
def ofSeed (seed : Int) : Generator :=
  let keys := (wordsOfNat seed.natAbs).toArray
  let m : Mixing := { words := wordsOf 19650218 }
  let m := (List.range (max size keys.size)).foldl (fun m _ => m.addKey keys) m
  let m := (List.range (size - 1)).foldl (fun m _ => m.addPlace) m
  ⟨m.words.setIfInBounds 0 0x80000000, size⟩

/-- Renews one word of the state from its successors. -/
def renewWord (ws : Array UInt32) (k : Nat) : Array UInt32 :=
  let y := (ws.getD k 0 &&& 0x80000000) ||| (ws.getD ((k + 1) % size) 0 &&& 0x7fffffff)
  let twisted := if y &&& 1 = 0 then y >>> 1 else (y >>> 1) ^^^ 0x9908b0df
  ws.setIfInBounds k (ws.getD ((k + 397) % size) 0 ^^^ twisted)

/-- Scatters the bits of a word of the state. -/
def temper (w : UInt32) : UInt32 :=
  let w := w ^^^ (w >>> 11)
  let w := w ^^^ ((w <<< 7) &&& 0x9d2c5680)
  let w := w ^^^ ((w <<< 15) &&& 0xefc60000)
  w ^^^ (w >>> 18)

/-- The next random word. -/
def nextWord (g : Generator) : UInt32 × Generator :=
  let g := if g.used < size then g else ⟨(List.range size).foldl renewWord g.words, 0⟩
  (temper (g.words.getD g.used 0), { g with used := g.used + 1 })

/-- The next random number, at least zero and below one. -/
def next (g : Generator) : Float × Generator :=
  let (a, g) := g.nextWord
  let (b, g) := g.nextWord
  (((a >>> 5).toFloat * 67108864.0 + (b >>> 6).toFloat) / 9007199254740992.0, g)

end Generator

end Calculator
