import WzGame.Protobuf.CodedOutputStream
import WzGame.Util.KeyedList

/-!
This module contains the codecs of the fields of a message, and how messages, repeated fields and maps are written and
read with them.
-/

namespace WzGame.Protobuf

open CodedInputStream CodedOutputStream

structure IMessage (M : Type) where
  writeTo : M → CodedOutputStream → Except Exception CodedOutputStream
  calculateSize : M → Nat
  mergeFrom : M → CodedInputStream → Except Exception (M × CodedInputStream)

namespace CodedOutputStream

def writeMessage {M : Type} (message : IMessage M) (o : CodedOutputStream) (value : M)
    : Except Exception CodedOutputStream := do
  let o ← o.writeLength (message.calculateSize value)
  message.writeTo value o

def computeMessageSize {M : Type} (message : IMessage M) (value : M) : Nat :=
  let size := message.calculateSize value
  computeLengthSize size + size

end CodedOutputStream

namespace CodedInputStream

def readMessage {M : Type} (message : IMessage M) (builder : M) (s : CodedInputStream)
    : Except Exception (M × CodedInputStream) := do
  let (length, s) ← s.readLength
  if s.recursionDepth ≥ recursionLimit then
    throw .recursionLimitExceeded
  else
    let (oldLimit, s) ← s.pushLimit length.toInt
    let (builder, s) ← message.mergeFrom builder { s with recursionDepth := s.recursionDepth + 1 }
    s.checkReadEndOfStreamTag
    if !s.reachedLimit then
      throw .truncatedMessage
    else
      pure (builder, { s with recursionDepth := s.recursionDepth - 1 }.popLimit oldLimit)

end CodedInputStream

structure FieldCodec (T : Type) where
  valueReader : CodedInputStream → Except Exception (T × CodedInputStream)
  valueWriter : CodedOutputStream → T → Except Exception CodedOutputStream
  valueSizeCalculator : T → Nat
  tag : UInt32
  -- `default(T) != null`
  typeSupportsPacking : Bool

-- a codec of values that are never `null`
structure ValueCodec (T : Type) extends FieldCodec T where
  defaultValue : T

namespace FieldCodec

variable {T M : Type}

def isPackedRepeatedField (codec : FieldCodec T) (tag : UInt32) : Bool :=
  codec.typeSupportsPacking && WireFormat.getTagWireType tag = WireFormat.lengthDelimited

def packedRepeatedField (codec : FieldCodec T) : Bool := codec.isPackedRepeatedField codec.tag

def forInt32 (tag : UInt32) : ValueCodec Int32 where
  valueReader := readInt32
  valueWriter := writeInt32
  valueSizeCalculator := computeInt32Size
  tag := tag
  typeSupportsPacking := true
  defaultValue := 0

def forInt64 (tag : UInt32) : ValueCodec Int64 where
  valueReader := readInt64
  valueWriter := writeInt64
  valueSizeCalculator := computeInt64Size
  tag := tag
  typeSupportsPacking := true
  defaultValue := 0

def forString (malformed : Malformed) (tag : UInt32) : ValueCodec String where
  valueReader := readString malformed
  valueWriter := writeString
  valueSizeCalculator := computeStringSize
  tag := tag
  typeSupportsPacking := false
  defaultValue := ""

def forMessage (tag : UInt32) (message : IMessage M) (new : M) : FieldCodec M where
  valueReader := readMessage message new
  valueWriter := writeMessage message
  valueSizeCalculator := computeMessageSize message
  tag := tag
  typeSupportsPacking := false

end FieldCodec

namespace ValueCodec

variable {T : Type} [DecidableEq T]

def writeTagAndValue (codec : ValueCodec T) (o : CodedOutputStream) (value : T)
    : Except Exception CodedOutputStream :=
  if value ≠ codec.defaultValue then do
    let o ← o.writeTag codec.tag
    codec.valueWriter o value
  else
    pure o

def calculateSizeWithTag (codec : ValueCodec T) (value : T) : Nat :=
  if value = codec.defaultValue then 0 else codec.valueSizeCalculator value + computeRawVarint32Size codec.tag

end ValueCodec

structure Field (M : Type) where
  tags : List UInt32
  writeTo : M → CodedOutputStream → Except Exception CodedOutputStream
  calculateSize : M → Nat
  mergeFrom : M → CodedInputStream → Except Exception (M × CodedInputStream)

namespace Field

variable {M : Type}

def along {A : Type} (field : Field A) (get : M → A) (set : M → A → M) : Field M where
  tags := field.tags
  writeTo m o := field.writeTo (get m) o
  calculateSize m := field.calculateSize (get m)
  mergeFrom m s := do
    let (a, s) ← field.mergeFrom (get m) s
    pure (set m a, s)

def mergeAll (fields : List (Field M)) : Nat → M → CodedInputStream → Except Exception (M × CodedInputStream)
  | 0, _, _ => throw .outOfFuel
  | fuel + 1, m, s => do
    let (tag, s) ← s.readTag
    if tag = 0 then
      pure (m, s)
    else
      match fields.find? (·.tags.contains tag) with
      | none =>
        let s ← skipLastField (3 * s.buffer.length + 3) s
        mergeAll fields fuel m s
      | some field =>
        let (m, s) ← field.mergeFrom m s
        mergeAll fields fuel m s

def message (fields : List (Field M)) : IMessage M where
  writeTo m o := fields.foldlM (fun o field => field.writeTo m o) o
  calculateSize m := (fields.map (·.calculateSize m)).sum
  mergeFrom m s := mergeAll fields (s.buffer.length + 1) m s

end Field

-- `do { ... } while (input.MaybeConsumeTag(tag))`
def doWhileTag {A : Type} (step : A → CodedInputStream → Except Exception (A × CodedInputStream)) (tag : UInt32)
    : Nat → A → CodedInputStream → Except Exception (A × CodedInputStream)
  | 0, _, _ => throw .outOfFuel
  | fuel + 1, a, s => do
    let (a, s) ← step a s
    let (more, s) ← s.maybeConsumeTag tag
    if more then doWhileTag step tag fuel a s else pure (a, s)

abbrev RepeatedField := List

namespace RepeatedField

variable {T : Type}

-- `Add(reader(input))`
def add (codec : FieldCodec T) (values : RepeatedField T) (s : CodedInputStream)
    : Except Exception (RepeatedField T × CodedInputStream) := do
  let (value, s) ← codec.valueReader s
  pure (values ++ [value], s)

def addPacked (codec : FieldCodec T) : Nat → RepeatedField T → CodedInputStream
    → Except Exception (RepeatedField T × CodedInputStream)
  | 0, _, _ => throw .outOfFuel
  | fuel + 1, values, s =>
    if s.reachedLimit then
      pure (values, s)
    else do
      let (values, s) ← add codec values s
      addPacked codec fuel values s

def addEntriesFrom (values : RepeatedField T) (s : CodedInputStream) (codec : FieldCodec T)
    : Except Exception (RepeatedField T × CodedInputStream) :=
  let tag := s.lastTag
  if codec.isPackedRepeatedField tag then do
    let (length, s) ← s.readLength
    if 0 < length then
      let (oldLimit, s) ← s.pushLimit length.toInt
      let (values, s) ← addPacked codec (s.buffer.length + 1) values s
      pure (values, s.popLimit oldLimit)
    else
      pure (values, s)
  else
    doWhileTag (add codec) tag (s.buffer.length + 1) values s

def calculatePackedDataSize (values : RepeatedField T) (codec : FieldCodec T) : Nat :=
  (values.map codec.valueSizeCalculator).sum

def calculateSize (values : RepeatedField T) (codec : FieldCodec T) : Nat :=
  if values.length = 0 then
    0
  else if codec.packedRepeatedField then
    let dataSize := values.calculatePackedDataSize codec
    computeRawVarint32Size codec.tag + computeLengthSize dataSize + dataSize
  else
    values.length * computeRawVarint32Size codec.tag + (values.map codec.valueSizeCalculator).sum

def writeTo (values : RepeatedField T) (o : CodedOutputStream) (codec : FieldCodec T)
    : Except Exception CodedOutputStream :=
  if values.length = 0 then
    pure o
  else if codec.packedRepeatedField then do
    let o ← o.writeTag codec.tag
    let o ← o.writeRawVarint32 (.ofNat (values.calculatePackedDataSize codec))
    values.foldlM codec.valueWriter o
  else
    values.foldlM (fun o value => do
      let o ← o.writeTag codec.tag
      codec.valueWriter o value) o

end RepeatedField

@[ext]
structure MapField (K V : Type) where
  list : List (K × V)
  nodup : (list.map Prod.fst).Nodup

namespace MapField

variable {K V : Type} [DecidableEq K] [DecidableEq V]

def empty : MapField K V := ⟨[], List.nodup_nil⟩

-- `this[key] = value`
def set (map : MapField K V) (key : K) (value : V) : MapField K V :=
  ⟨KeyedList.upsert Prod.fst map.list (key, value), KeyedList.nodup_upsert map.nodup⟩

def containsKey (map : MapField K V) (key : K) : Bool := map.list.any fun entry => entry.1 = key

-- `Add(pair.Key, pair.Value)` for the entries of another map.
def add (map entries : MapField K V) : Except Exception (MapField K V) :=
  entries.list.foldlM (fun map entry =>
    if map.containsKey entry.1 then
      throw .keyExists
    else
      pure (map.set entry.1 entry.2)) map

structure Codec (K V : Type) where
  keyCodec : ValueCodec K
  valueCodec : ValueCodec V
  mapTag : UInt32

namespace Codec

def field {T : Type} [DecidableEq T] (codec : ValueCodec T) : Field T where
  tags := [codec.tag]
  writeTo value o := codec.writeTagAndValue o value
  calculateSize value := codec.calculateSizeWithTag value
  mergeFrom _ s := codec.valueReader s

def fields (codec : Codec K V) : List (Field (K × V)) :=
  [(field codec.keyCodec).along Prod.fst fun entry key => (key, entry.2),
    (field codec.valueCodec).along Prod.snd fun entry value => (entry.1, value)]

def messageAdapter (codec : Codec K V) : IMessage (K × V) := Field.message codec.fields

-- `adapter.Reset()`
def reset (codec : Codec K V) : K × V := (codec.keyCodec.defaultValue, codec.valueCodec.defaultValue)

end Codec

-- `this[adapter.Key] = adapter.Value` after the adapter has been read.
def addEntry (codec : Codec K V) (map : MapField K V) (s : CodedInputStream)
    : Except Exception (MapField K V × CodedInputStream) := do
  let ((key, value), s) ← s.readMessage codec.messageAdapter codec.reset
  pure (map.set key value, s)

def addEntriesFrom (map : MapField K V) (s : CodedInputStream) (codec : Codec K V)
    : Except Exception (MapField K V × CodedInputStream) :=
  doWhileTag (addEntry codec) codec.mapTag (s.buffer.length + 1) map s

def writeTo (map : MapField K V) (o : CodedOutputStream) (codec : Codec K V) : Except Exception CodedOutputStream :=
  map.list.foldlM (fun o entry => do
    let o ← o.writeTag codec.mapTag
    o.writeMessage codec.messageAdapter entry) o

def calculateSize (map : MapField K V) (codec : Codec K V) : Nat :=
  if map.list.length = 0 then
    0
  else
    (map.list.map fun entry =>
      computeRawVarint32Size codec.mapTag + computeMessageSize codec.messageAdapter entry).sum

end MapField

end WzGame.Protobuf
