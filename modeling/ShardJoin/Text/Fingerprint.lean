/-
Fingerprints of texts.

The fingerprint of a text starts from a fixed word and takes in the bytes of
the text one after the other, each by an exclusive or and a product with a
fixed prime, in words of 64 bits (the FNV-1a function).  Different texts can
have the same fingerprint.
-/

namespace ShardJoin.Text

/-- A fingerprint after one more byte. -/
def absorb (word : UInt64) (byte : UInt8) : UInt64 :=
  (word ^^^ byte.toUInt64) * 0x100000001b3

/-- The fingerprint of a text. -/
def fingerprint (s : String) : UInt64 :=
  s.toUTF8.data.foldl absorb 0xcbf29ce484222325

end ShardJoin.Text
