import WzGame.Util.Varints
import WzGame.Util.Utf
import Mathlib.Algebra.Order.Ring.Int

/-!
This module contains the streams that the client reads its messages from. They are over an array: there is no `input`
that could refill the buffer.
-/

namespace WzGame.Protobuf

-- What reading and writing can throw. `outOfFuel` stands for a loop that has made more rounds than there are bytes.
inductive Exception where
  | moreDataAvailable
  | truncatedMessage
  | negativeSize
  | malformedVarint
  | invalidTag
  | recursionLimitExceeded
  | endGroupTag
  | mismatchedEndGroup (startField endField : Int32)
  | skipAtEnd
  | refillBuffer
  | indexOutOfRange
  | argument
  | argumentOutOfRange
  | keyExists
  | outOfSpace
  | didNotWriteAll
  | outOfFuel
deriving DecidableEq, Repr

abbrev Malformed := List UInt8 → String

-- the value of an `int` after an operation that may overflow
def int32 (n : Int) : Int := n.bmod (2 ^ 32)

def maxValue : Int := 2147483647

-- `ByteArray.Copy(src, srcOffset, dst, 0, count)`, where `dst` has room for the bytes.
def byteArrayCopy (src : List UInt8) (srcOffset : Int) (dst : List UInt8) (count : Int)
    : Except Exception (List UInt8) :=
  let copied (n : Int) : List UInt8 :=
    let bytes := (src.drop srcOffset.toNat).take n.toNat
    bytes ++ dst.drop bytes.length
  if 12 < count then
    -- `Buffer.BlockCopy`
    if srcOffset < 0 then
      throw .argumentOutOfRange
    else if src.length < srcOffset + count then
      throw .argument
    else
      pure (copied count)
  else
    let stop := int32 (srcOffset + count)
    if stop ≤ srcOffset then
      pure dst
    else if srcOffset < 0 ∨ src.length < stop then
      throw .indexOutOfRange
    else
      pure (copied (stop - srcOffset))

namespace WireFormat

def varint : UInt32 := 0

def fixed64 : UInt32 := 1

def lengthDelimited : UInt32 := 2

def startGroup : UInt32 := 3

def endGroup : UInt32 := 4

def fixed32 : UInt32 := 5

def tagTypeBits : UInt32 := 3

def tagTypeMask : UInt32 := (1 <<< tagTypeBits) - 1

def getTagWireType (tag : UInt32) : UInt32 := tag &&& tagTypeMask

def getTagFieldNumber (tag : UInt32) : Int32 := tag.toInt32 >>> tagTypeBits.toInt32

end WireFormat

structure CodedInputStream where
  buffer : List UInt8
  bufferSize : Int
  bufferSizeAfterLimit : Int
  bufferPos : Int
  lastTag : UInt32
  nextTag : UInt32
  hasNextTag : Bool
  totalBytesRetired : Int
  currentLimit : Int
  recursionDepth : Nat
deriving DecidableEq, Repr

namespace CodedInputStream

def recursionLimit : Nat := 64

-- `new CodedInputStream(buffer)`
def new (buffer : List UInt8) : CodedInputStream :=
  { buffer, bufferSize := buffer.length, bufferSizeAfterLimit := 0, bufferPos := 0, lastTag := 0, nextTag := 0,
    hasNextTag := false, totalBytesRetired := 0, currentLimit := maxValue, recursionDepth := 0 }

def checkReadEndOfStreamTag (s : CodedInputStream) : Except Exception Unit :=
  if s.lastTag ≠ 0 then throw .moreDataAvailable else pure ()

def advance (s : CodedInputStream) (n : Int) : CodedInputStream := { s with bufferPos := s.bufferPos + n }

-- `buffer[bufferPos++]`
def nextByte (s : CodedInputStream) : Except Exception (UInt8 × CodedInputStream) :=
  if s.bufferPos < 0 then
    throw .indexOutOfRange
  else
    match s.buffer[s.bufferPos.toNat]? with
    | none => throw .indexOutOfRange
    | some b => pure (b, s.advance 1)

def refillBuffer (s : CodedInputStream) (mustSucceed : Bool) : Except Exception (Bool × CodedInputStream) :=
  if s.bufferPos < s.bufferSize then
    throw .refillBuffer
  else if int32 (s.totalBytesRetired + s.bufferSize) = s.currentLimit then
    if mustSucceed then throw .truncatedMessage else pure (false, s)
  else if mustSucceed then
    throw .truncatedMessage
  else
    pure (false, { s with
      totalBytesRetired := int32 (s.totalBytesRetired + s.bufferSize), bufferPos := 0, bufferSize := 0 })

def isAtEnd (s : CodedInputStream) : Except Exception (Bool × CodedInputStream) :=
  if s.bufferPos = s.bufferSize then do
    let (refilled, s) ← s.refillBuffer false
    pure (!refilled, s)
  else
    pure (false, s)

def readRawByte (s : CodedInputStream) : Except Exception (UInt8 × CodedInputStream) :=
  if s.bufferPos = s.bufferSize then do
    let (_, s) ← s.refillBuffer true
    s.nextByte
  else
    s.nextByte

def discard (result : UInt32) : Nat → CodedInputStream → Except Exception (UInt32 × CodedInputStream)
  | 0, _ => throw .malformedVarint
  | i + 1, s => do
    let (b, s) ← s.readRawByte
    if b < 128 then pure (result, s) else discard result i s

def readVarint32 (read : CodedInputStream → Except Exception (UInt8 × CodedInputStream)) (s : CodedInputStream)
    : Except Exception (UInt32 × CodedInputStream) := do
  let (tmp, s) ← read s
  if tmp < 128 then
    pure (tmp.toUInt32, s)
  else
    let result := tmp.toUInt32 &&& 0x7f
    let (tmp, s) ← read s
    if tmp < 128 then
      pure (result ||| tmp.toUInt32 <<< 7, s)
    else
      let result := result ||| (tmp.toUInt32 &&& 0x7f) <<< 7
      let (tmp, s) ← read s
      if tmp < 128 then
        pure (result ||| tmp.toUInt32 <<< 14, s)
      else
        let result := result ||| (tmp.toUInt32 &&& 0x7f) <<< 14
        let (tmp, s) ← read s
        if tmp < 128 then
          pure (result ||| tmp.toUInt32 <<< 21, s)
        else
          let result := result ||| (tmp.toUInt32 &&& 0x7f) <<< 21
          let (tmp, s) ← read s
          let result := result ||| tmp.toUInt32 <<< 28
          if tmp < 128 then pure (result, s) else discard result 5 s

def slowReadRawVarint32 : CodedInputStream → Except Exception (UInt32 × CodedInputStream) := readVarint32 readRawByte

def readRawVarint32 (s : CodedInputStream) : Except Exception (UInt32 × CodedInputStream) :=
  -- no array is so long that this sum overflows
  if s.bufferPos + 5 > s.bufferSize then
    s.slowReadRawVarint32
  else
    readVarint32 nextByte s

def readVarint64 (shift : Nat) (result : UInt64) (s : CodedInputStream)
    : Except Exception (UInt64 × CodedInputStream) :=
  if shift < 64 then do
    let (b, s) ← s.readRawByte
    let result := result ||| (b &&& 0x7F).toUInt64 <<< .ofNat shift
    if b &&& 0x80 = 0 then pure (result, s) else readVarint64 (shift + 7) result s
  else
    throw .malformedVarint
termination_by 64 - shift

def readRawVarint64 : CodedInputStream → Except Exception (UInt64 × CodedInputStream) := readVarint64 0 0

def readInt64 (s : CodedInputStream) : Except Exception (Int64 × CodedInputStream) := do
  let (v, s) ← s.readRawVarint64
  pure (v.toInt64, s)

def readInt32 (s : CodedInputStream) : Except Exception (Int32 × CodedInputStream) := do
  let (v, s) ← s.readRawVarint32
  pure (v.toInt32, s)

def readLength : CodedInputStream → Except Exception (Int32 × CodedInputStream) := readInt32

def readRawLittleEndian : Nat → CodedInputStream → Except Exception (List UInt8 × CodedInputStream)
  | 0, s => pure ([], s)
  | n + 1, s => do
    let (b, s) ← s.readRawByte
    let (bs, s) ← readRawLittleEndian n s
    pure (b :: bs, s)

def readFixed32 : CodedInputStream → Except Exception (List UInt8 × CodedInputStream) := readRawLittleEndian 4

def readFixed64 : CodedInputStream → Except Exception (List UInt8 × CodedInputStream) := readRawLittleEndian 8

def skipRawBytes (s : CodedInputStream) (size : Int) : Except Exception CodedInputStream :=
  if size < 0 then
    throw .negativeSize
  else if int32 (s.totalBytesRetired + s.bufferPos + size) > s.currentLimit then
    -- what is left is skipped first, which fails where there is less than nothing
    if int32 (s.currentLimit - s.totalBytesRetired - s.bufferPos) < 0 then
      throw .negativeSize
    else
      throw .truncatedMessage
  else if size ≤ int32 (s.bufferSize - s.bufferPos) then
    pure { s with bufferPos := int32 (s.bufferPos + size) }
  else
    throw .truncatedMessage

def readRawBytes (s : CodedInputStream) (size : Int) : Except Exception (List UInt8 × CodedInputStream) :=
  if size < 0 then
    throw .negativeSize
  else if int32 (s.totalBytesRetired + s.bufferPos + size) > s.currentLimit then
    if int32 (s.currentLimit - s.totalBytesRetired - s.bufferPos) < 0 then
      throw .negativeSize
    else
      throw .truncatedMessage
  else
    let bytes := List.replicate size.toNat 0
    let pos := int32 (s.bufferSize - s.bufferPos)
    if size ≤ pos then do
      let bytes ← byteArrayCopy s.buffer s.bufferPos bytes size
      pure (bytes, { s with bufferPos := int32 (s.bufferPos + size) })
    else if size < s.buffer.length then do
      let _ ← byteArrayCopy s.buffer s.bufferPos bytes pos
      throw .truncatedMessage
    else if 0 < int32 (size - pos) then
      -- the first chunk of them cannot be read, but for chunks without a byte, which there is no end of
      if s.buffer = [] then throw .outOfFuel else throw .truncatedMessage
    else do
      let bytes ← byteArrayCopy s.buffer s.bufferPos bytes pos
      pure (bytes, { s with
        totalBytesRetired := int32 (s.totalBytesRetired + s.bufferSize), bufferPos := 0, bufferSize := 0 })

def getString (malformed : Malformed) (bytes : List UInt8) : String :=
  match Utf.utf8Decode? bytes with
  | some cs => .ofList cs
  | none => malformed bytes

def nextBytes (s : CodedInputStream) (count : Int) : Except Exception (List UInt8 × CodedInputStream) :=
  if count < 0 ∨ s.bufferPos < 0 ∨ s.buffer.length < s.bufferPos + count then
    throw .argumentOutOfRange
  else
    pure ((s.buffer.drop s.bufferPos.toNat).take count.toNat, s.advance count)

def readString (malformed : Malformed) (s : CodedInputStream)
    : Except Exception (String × CodedInputStream) := do
  let (length, s) ← s.readLength
  if length = 0 then
    pure ("", s)
  else if length.toInt ≤ int32 (s.bufferSize - s.bufferPos) then
    let (bytes, s) ← s.nextBytes length.toInt
    pure (getString malformed bytes, s)
  else
    let (bytes, s) ← s.readRawBytes length.toInt
    pure (getString malformed bytes, s)

def recomputeBufferSizeAfterLimit (s : CodedInputStream) : CodedInputStream :=
  let bufferSize := int32 (s.bufferSize + s.bufferSizeAfterLimit)
  let bufferEnd := int32 (s.totalBytesRetired + bufferSize)
  if bufferEnd > s.currentLimit then
    let bufferSizeAfterLimit := int32 (bufferEnd - s.currentLimit)
    { s with bufferSizeAfterLimit, bufferSize := int32 (bufferSize - bufferSizeAfterLimit) }
  else
    { s with bufferSizeAfterLimit := 0, bufferSize }

def pushLimit (s : CodedInputStream) (byteLimit : Int) : Except Exception (Int × CodedInputStream) :=
  if byteLimit < 0 then
    throw .negativeSize
  else
    let byteLimit := int32 (byteLimit + int32 (s.totalBytesRetired + s.bufferPos))
    let oldLimit := s.currentLimit
    if byteLimit > oldLimit then
      throw .truncatedMessage
    else
      pure (oldLimit, { s with currentLimit := byteLimit }.recomputeBufferSizeAfterLimit)

def popLimit (s : CodedInputStream) (oldLimit : Int) : CodedInputStream :=
  { s with currentLimit := oldLimit }.recomputeBufferSizeAfterLimit

def reachedLimit (s : CodedInputStream) : Bool :=
  if s.currentLimit = maxValue then
    false
  else
    decide (s.currentLimit ≤ int32 (s.totalBytesRetired + s.bufferPos))

def setLastTag (s : CodedInputStream) (tag : UInt32) : Except Exception (UInt32 × CodedInputStream) :=
  if tag = 0 then throw .invalidTag else pure (tag, { s with lastTag := tag })

def readTag (s : CodedInputStream) : Except Exception (UInt32 × CodedInputStream) :=
  if s.hasNextTag then
    pure (s.nextTag, { s with lastTag := s.nextTag, hasNextTag := false })
  else if s.bufferPos + 2 ≤ s.bufferSize then do
    let (tmp, s') ← s.nextByte
    if tmp < 128 then
      s'.setLastTag tmp.toUInt32
    else
      let result := tmp.toUInt32 &&& 0x7f
      let (tmp, s') ← s'.nextByte
      if tmp < 128 then
        s'.setLastTag (result ||| tmp.toUInt32 <<< 7)
      else
        -- rewinds to where the tag begins
        let (tag, s') ← s.readRawVarint32
        s'.setLastTag tag
  else do
    let (atEnd, s) ← s.isAtEnd
    if atEnd then
      pure (0, { s with lastTag := 0 })
    else
      let (tag, s) ← s.readRawVarint32
      s.setLastTag tag

def peekTag (s : CodedInputStream) : Except Exception (UInt32 × CodedInputStream) :=
  if s.hasNextTag then
    pure (s.nextTag, s)
  else do
    let savedLast := s.lastTag
    let (nextTag, s) ← s.readTag
    pure (nextTag, { s with nextTag, hasNextTag := true, lastTag := savedLast })

def maybeConsumeTag (s : CodedInputStream) (tag : UInt32) : Except Exception (Bool × CodedInputStream) := do
  let (nextTag, s) ← s.peekTag
  if nextTag = tag then pure (true, { s with hasNextTag := false }) else pure (false, s)

mutual

def skipLastField : Nat → CodedInputStream → Except Exception CodedInputStream
  | 0, _ => throw .outOfFuel
  | fuel + 1, s =>
    if s.lastTag = 0 then
      throw .skipAtEnd
    else
      let wireType := WireFormat.getTagWireType s.lastTag
      if wireType = WireFormat.startGroup then
        skipGroup fuel s s.lastTag
      else if wireType = WireFormat.endGroup then
        throw .endGroupTag
      else if wireType = WireFormat.fixed32 then do
        let (_, s) ← s.readFixed32
        pure s
      else if wireType = WireFormat.fixed64 then do
        let (_, s) ← s.readFixed64
        pure s
      else if wireType = WireFormat.lengthDelimited then do
        let (length, s) ← s.readLength
        s.skipRawBytes length.toInt
      else if wireType = WireFormat.varint then do
        let (_, s) ← s.readRawVarint32
        pure s
      else
        pure s

def skipGroup : Nat → CodedInputStream → UInt32 → Except Exception CodedInputStream
  | 0, _, _ => throw .outOfFuel
  | fuel + 1, s, startGroupTag =>
    if s.recursionDepth + 1 ≥ recursionLimit then
      throw .recursionLimitExceeded
    else do
      let (tag, s) ← skipFields fuel { s with recursionDepth := s.recursionDepth + 1 }
      let startField := WireFormat.getTagFieldNumber startGroupTag
      let endField := WireFormat.getTagFieldNumber tag
      if startField ≠ endField then
        throw (.mismatchedEndGroup startField endField)
      else
        pure { s with recursionDepth := s.recursionDepth - 1 }

def skipFields : Nat → CodedInputStream → Except Exception (UInt32 × CodedInputStream)
  | 0, _ => throw .outOfFuel
  | fuel + 1, s => do
    let (tag, s) ← s.readTag
    if tag = 0 then
      throw .truncatedMessage
    else if WireFormat.getTagWireType tag = WireFormat.endGroup then
      pure (tag, s)
    else
      let s ← skipLastField fuel s
      skipFields fuel s

end

end CodedInputStream

end WzGame.Protobuf
