/-!
# `PartitionStore.Checksum`: CRC-32

The cyclic redundancy check of IEEE 802.3, bits taken lowest first: a register
that starts with all bits set is fed the message byte by byte and inverted at
the end. The register is fed one byte at a time by a fold, so feeding a
message in parts is feeding it whole (`feed_append`).
-/

set_option autoImplicit false

namespace PartitionStore.Checksum

/-- The generator polynomial, lowest power in the highest bit, without its leading term. -/
def generator : UInt32 := 0xEDB88320

/-- Divides the register by the variable once: shifts one bit out and subtracts the
generator if the bit was set. -/
def shiftBit (register : UInt32) : UInt32 :=
  if register &&& 1 = 0 then register >>> 1 else (register >>> 1) ^^^ generator

/-- Shifts eight bits out. -/
def shiftByte (register : UInt32) : UInt32 :=
  shiftBit <| shiftBit <| shiftBit <| shiftBit <|
    shiftBit <| shiftBit <| shiftBit <| shiftBit register

/-- Feeds one byte to the register. -/
def feedByte (register : UInt32) (byte : UInt8) : UInt32 :=
  shiftByte (register ^^^ byte.toUInt32)

/-- Feeds bytes to the register. -/
def feed (register : UInt32) (bytes : List UInt8) : UInt32 := bytes.foldl feedByte register

/-- The register before a message: all bits set. -/
def start : UInt32 := 0xFFFFFFFF

/-- The checksum of a message after which the register is given. -/
def finish (register : UInt32) : UInt32 := ~~~register

/-- The checksum of a message. -/
def crc32 (bytes : List UInt8) : UInt32 := finish (feed start bytes)

/-- Bytes are fed in one after the other, so that a front may be fed in before the rest. -/
theorem feed_append (register : UInt32) (front back : List UInt8) :
    feed register (front ++ back) = feed (feed register front) back :=
  List.foldl_append ..

/-- The check value that the definition of this checksum names: that of the nine digits. -/
example : crc32 [0x31, 0x32, 0x33, 0x34, 0x35, 0x36, 0x37, 0x38, 0x39] = 0xCBF43926 := by
  decide +kernel

end PartitionStore.Checksum
