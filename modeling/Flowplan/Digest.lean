/-!
# The 64-bit digest XXH64

The digest of a byte sequence under seed zero. Bytes are read as little-endian words of
eight; four lanes take the words in stripes of four, and what does not fill a stripe is mixed
in word by word, then as one half word if four bytes are left, then byte by byte. All
arithmetic is modulo `2 ^ 64`.
-/

namespace Flowplan.Digest

def prime1 : UInt64 := 11400714785074694791
def prime2 : UInt64 := 14029467366897019727
def prime3 : UInt64 := 1609587929392839161
def prime4 : UInt64 := 9650029242287828579
def prime5 : UInt64 := 2870177450012600261

/-- Rotates the bits of a word to the left, by an amount between 1 and 63. -/
def rotate (word amount : UInt64) : UInt64 :=
  (word <<< amount) ||| (word >>> (64 - amount))

/-- The number whose bytes are given from the lowest to the highest. -/
def littleEndian (bytes : List UInt8) : UInt64 :=
  bytes.foldr (fun byte higher => byte.toUInt64 + higher * 256) 0

/-- The whole words at the start of a byte sequence, and the bytes after them. -/
def words : List UInt8 → List UInt64 × List UInt8
  | b0 :: b1 :: b2 :: b3 :: b4 :: b5 :: b6 :: b7 :: rest =>
      let (later, tail) := words rest
      (littleEndian [b0, b1, b2, b3, b4, b5, b6, b7] :: later, tail)
  | tail => ([], tail)

/-- One step of a lane. -/
def round (lane word : UInt64) : UInt64 :=
  rotate (lane + word * prime2) 31 * prime1

/-- The four lanes. -/
structure Lanes where
  first : UInt64
  second : UInt64
  third : UInt64
  fourth : UInt64
  deriving DecidableEq, Repr

namespace Lanes

def start : Lanes := ⟨prime1 + prime2, prime2, 0, 0 - prime1⟩

/-- Takes words in stripes of four, and returns the words which fill no stripe. -/
def take (lanes : Lanes) : List UInt64 → Lanes × List UInt64
  | w1 :: w2 :: w3 :: w4 :: rest =>
      take ⟨round lanes.first w1, round lanes.second w2, round lanes.third w3,
        round lanes.fourth w4⟩ rest
  | rest => (lanes, rest)

/-- Mixes one lane into the digest. -/
def mix (digest lane : UInt64) : UInt64 :=
  (digest ^^^ round 0 lane) * prime1 + prime4

/-- Joins the lanes. -/
def join (lanes : Lanes) : UInt64 :=
  let sum := rotate lanes.first 1 + rotate lanes.second 7 + rotate lanes.third 12 +
    rotate lanes.fourth 18
  mix (mix (mix (mix sum lanes.first) lanes.second) lanes.third) lanes.fourth

end Lanes

/-- Mixes in a word which fills no stripe. -/
def mixWord (digest word : UInt64) : UInt64 :=
  rotate (digest ^^^ round 0 word) 27 * prime1 + prime4

/-- Mixes in a single byte. -/
def mixByte (digest : UInt64) (byte : UInt8) : UInt64 :=
  rotate (digest ^^^ (byte.toUInt64 * prime5)) 11 * prime1

/-- Mixes in the bytes which fill no word. -/
def mixTail (digest : UInt64) : List UInt8 → UInt64
  | b0 :: b1 :: b2 :: b3 :: rest =>
      let half := littleEndian [b0, b1, b2, b3]
      rest.foldl mixByte (rotate (digest ^^^ (half * prime1)) 23 * prime2 + prime3)
  | rest => rest.foldl mixByte digest

/-- Spreads every bit over the whole digest. -/
def avalanche (digest : UInt64) : UInt64 :=
  let once := (digest ^^^ (digest >>> 33)) * prime2
  let twice := (once ^^^ (once >>> 29)) * prime3
  twice ^^^ (twice >>> 32)

/-- The digest of a byte sequence. -/
def ofBytes (bytes : List UInt8) : UInt64 :=
  let (allWords, tail) := words bytes
  let (lanes, restWords) := Lanes.start.take allWords
  let base := if bytes.length < 32 then prime5 else lanes.join
  let sized := base + bytes.length.toUInt64
  avalanche (mixTail (restWords.foldl mixWord sized) tail)

end Flowplan.Digest
