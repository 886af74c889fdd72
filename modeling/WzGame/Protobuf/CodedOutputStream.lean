import WzGame.Protobuf.CodedInputStream

/-!
This module contains the streams that the client writes its messages to. They are over an array of the size that has
been computed before: there is no `output` that the buffer could be flushed to. A text is a `String`, and so stands for
a C# string in which every surrogate has its partner. Of one without its partner the encoder makes U+FFFD.
-/

namespace WzGame.Protobuf

structure CodedOutputStream where
  buffer : List UInt8
  limit : Nat
  length_le : buffer.length ≤ limit

namespace CodedOutputStream

-- `new CodedOutputStream(new byte[length])`
def new (length : Nat) : CodedOutputStream := ⟨[], length, Nat.zero_le length⟩

def position (o : CodedOutputStream) : Nat := o.buffer.length

-- `buffer[position++] = value`
def push (o : CodedOutputStream) (value : UInt8) (h : o.position < o.limit) : CodedOutputStream :=
  ⟨o.buffer ++ [value], o.limit, by rw [List.length_append]; exact h⟩

def writeRawByte (o : CodedOutputStream) (value : UInt8) : Except Exception CodedOutputStream :=
  if h : o.position = o.limit then throw .outOfSpace else pure (o.push value (Nat.lt_of_le_of_ne o.length_le h))

def writeFast (value : Nat) (o : CodedOutputStream) : Nat × CodedOutputStream :=
  if h : 127 < value ∧ o.position < o.limit then
    writeFast (value / 128) (o.push (.ofNat (value % 128 + 128)) h.2)
  else
    (value, o)

def writeSlow (value : Nat) (o : CodedOutputStream) : Except Exception (Nat × CodedOutputStream) :=
  if 127 < value then do
    let o ← o.writeRawByte (.ofNat (value % 128 + 128))
    writeSlow (value / 128) o
  else
    pure (value, o)

def writeLast (value : Nat) (o : CodedOutputStream) : Except Exception CodedOutputStream :=
  if h : o.position < o.limit then pure (o.push (.ofNat value) h) else o.writeRawByte (.ofNat value)

def writeRawVarint64 (o : CodedOutputStream) (value : UInt64) : Except Exception CodedOutputStream := do
  let (value, o) := writeFast value.toNat o
  let (value, o) ← writeSlow value o
  writeLast value o

def writeRawVarint32 (o : CodedOutputStream) (value : UInt32) : Except Exception CodedOutputStream :=
  if h : value < 128 ∧ o.position < o.limit then
    pure (o.push value.toUInt8 h.2)
  else do
    let (value, o) := writeFast value.toNat o
    let (value, o) ← writeSlow value o
    writeLast value o

def writeInt64 (o : CodedOutputStream) (value : Int64) : Except Exception CodedOutputStream :=
  o.writeRawVarint64 value.toUInt64

def writeInt32 (o : CodedOutputStream) (value : Int32) : Except Exception CodedOutputStream :=
  if 0 ≤ value then o.writeRawVarint32 value.toUInt32 else o.writeRawVarint64 value.toInt64.toUInt64

def writeLength (o : CodedOutputStream) (length : Nat) : Except Exception CodedOutputStream :=
  o.writeRawVarint32 (.ofNat length)

def writeTag : CodedOutputStream → UInt32 → Except Exception CodedOutputStream := writeRawVarint32

def writeRawTag : CodedOutputStream → UInt8 → Except Exception CodedOutputStream := writeRawByte

def put (o : CodedOutputStream) (bytes : List UInt8) : Except Exception CodedOutputStream :=
  if h : o.position + bytes.length ≤ o.limit then
    pure ⟨o.buffer ++ bytes, o.limit, by rw [List.length_append]; exact h⟩
  else
    throw .outOfSpace

-- `Utf8Encoding.GetBytes(value)`
def getBytes (value : String) : List UInt8 := Utf.utf8Encode value.toList

def getByteCount (value : String) : Nat := (getBytes value).length

def units (value : String) : List UInt16 := Utf.utf16Encode value.toList

def writeString (o : CodedOutputStream) (value : String) : Except Exception CodedOutputStream := do
  let length := getByteCount value
  let o ← o.writeLength length
  if length ≤ o.limit - o.position then
    if length = (units value).length then
      o.put ((units value).map UInt16.toUInt8)
    else
      o.put (getBytes value)
  else
    -- `WriteRawBytes` fills what is left of the buffer, and cannot flush it
    o.put (getBytes value)

def checkNoSpaceLeft (o : CodedOutputStream) : Except Exception Unit :=
  if o.limit - o.position ≠ 0 then throw .didNotWriteAll else pure ()

def computeRawVarint32Size (value : UInt32) : Nat :=
  if value &&& (0xffffffff : UInt32) <<< 7 = 0 then
    1
  else if value &&& (0xffffffff : UInt32) <<< 14 = 0 then
    2
  else if value &&& (0xffffffff : UInt32) <<< 21 = 0 then
    3
  else if value &&& (0xffffffff : UInt32) <<< 28 = 0 then
    4
  else
    5

def computeRawVarint64Size (value : UInt64) : Nat :=
  if value &&& (0xffffffffffffffff : UInt64) <<< 7 = 0 then
    1
  else if value &&& (0xffffffffffffffff : UInt64) <<< 14 = 0 then
    2
  else if value &&& (0xffffffffffffffff : UInt64) <<< 21 = 0 then
    3
  else if value &&& (0xffffffffffffffff : UInt64) <<< 28 = 0 then
    4
  else if value &&& (0xffffffffffffffff : UInt64) <<< 35 = 0 then
    5
  else if value &&& (0xffffffffffffffff : UInt64) <<< 42 = 0 then
    6
  else if value &&& (0xffffffffffffffff : UInt64) <<< 49 = 0 then
    7
  else if value &&& (0xffffffffffffffff : UInt64) <<< 56 = 0 then
    8
  else if value &&& (0xffffffffffffffff : UInt64) <<< 63 = 0 then
    9
  else
    10

def computeInt64Size (value : Int64) : Nat := computeRawVarint64Size value.toUInt64

def computeInt32Size (value : Int32) : Nat := if 0 ≤ value then computeRawVarint32Size value.toUInt32 else 10

def computeLengthSize (length : Nat) : Nat := computeRawVarint32Size (.ofNat length)

def computeStringSize (value : String) : Nat :=
  let byteArraySize := getByteCount value
  computeLengthSize byteArraySize + byteArraySize

end CodedOutputStream

end WzGame.Protobuf
