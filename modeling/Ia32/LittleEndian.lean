/-!
Little-endian composition of words from bytes and the bytes of a word, lowest address first.
-/
namespace Ia32

/-- The word whose bytes at ascending addresses are `b0`, `b1`. -/
def le16 (b0 b1 : UInt8) : UInt16 := b0.toUInt16 ||| (b1.toUInt16 <<< 8)

/-- The dword whose bytes at ascending addresses are `b0` to `b3`. -/
def le32 (b0 b1 b2 b3 : UInt8) : UInt32 :=
  b0.toUInt32 ||| (b1.toUInt32 <<< 8) ||| (b2.toUInt32 <<< 16) ||| (b3.toUInt32 <<< 24)

def byteIn (bytes : Vector UInt8 1) : UInt8 := bytes[0]

def wordIn (bytes : Vector UInt8 2) : UInt16 := le16 bytes[0] bytes[1]

def dwordIn (bytes : Vector UInt8 4) : UInt32 := le32 bytes[0] bytes[1] bytes[2] bytes[3]

/-- Byte `i` of a dword, counted from the least significant. -/
def byteOf (v : UInt32) (i : UInt32) : UInt8 := (v >>> (8 * i)).toUInt8

def bytesOf16 (v : UInt16) : List UInt8 := [v.toUInt8, (v >>> 8).toUInt8]

def bytesOf32 (v : UInt32) : List UInt8 := [byteOf v 0, byteOf v 1, byteOf v 2, byteOf v 3]

end Ia32
