import WzGame.Protobuf.FieldCodec

/-!
This module contains the kinds of fields that the compiler of the messages generates code for, and the parsing and
writing of a whole message.
-/

namespace WzGame.Protobuf

open CodedInputStream CodedOutputStream

abbrev Fields (M : Type) := List (Field M)

namespace Field

variable {M N T K V : Type}

def value [DecidableEq T] (codec : ValueCodec T) : Field T where
  tags := [codec.tag]
  writeTo value o :=
    if value ≠ codec.defaultValue then do
      let o ← o.writeRawTag codec.tag.toUInt8
      codec.valueWriter o value
    else
      pure o
  calculateSize value := if value ≠ codec.defaultValue then 1 + codec.valueSizeCalculator value else 0
  mergeFrom _ s := codec.valueReader s

-- a message that may be `null`, and then is created before it is read
def nullable (tag : UInt32) (message : IMessage N) (new : N) : Field (Option N) where
  tags := [tag]
  writeTo value o :=
    match value with
    | none => pure o
    | some value => do
      let o ← o.writeRawTag tag.toUInt8
      o.writeMessage message value
  calculateSize value :=
    match value with
    | none => 0
    | some value => 1 + computeMessageSize message value
  mergeFrom value s := do
    let (value, s) ← s.readMessage message (value.getD new)
    pure (some value, s)

def values (tags : List UInt32) (codec : FieldCodec T) : Field (RepeatedField T) where
  tags
  writeTo values o := values.writeTo o codec
  calculateSize values := values.calculateSize codec
  mergeFrom values s := values.addEntriesFrom s codec

def entries [DecidableEq K] [DecidableEq V] (codec : MapField.Codec K V) : Field (MapField K V) where
  tags := [codec.mapTag]
  writeTo map o := map.writeTo o codec
  calculateSize map := map.calculateSize codec
  mergeFrom map s := map.addEntriesFrom s codec

def singular [DecidableEq T] (codec : ValueCodec T) (get : M → T) (set : M → T → M) : Field M :=
  (value codec).along get set

def optional (tag : UInt32) (message : IMessage N) (new : N) (get : M → Option N) (set : M → Option N → M) : Field M :=
  (nullable tag message new).along get set

def repeated (tags : List UInt32) (codec : FieldCodec T) (get : M → RepeatedField T)
    (set : M → RepeatedField T → M) : Field M :=
  (values tags codec).along get set

def map [DecidableEq K] [DecidableEq V] (codec : MapField.Codec K V) (get : M → MapField K V)
    (set : M → MapField K V → M) : Field M :=
  (entries codec).along get set

end Field

namespace IMessage

variable {M : Type}

-- `message.MergeFrom(data)`
def mergeFromData (message : IMessage M) (m : M) (data : List UInt8) : Except Exception M := do
  let (m, input) ← message.mergeFrom m (.new data)
  input.checkReadEndOfStreamTag
  pure m

-- `Parser.ParseFrom(data)`, where `new` is what the parser creates.
def parseFrom (message : IMessage M) (new : M) (data : List UInt8) : Except Exception M :=
  message.mergeFromData new data

def toByteArray (message : IMessage M) (m : M) : Except Exception (List UInt8) := do
  let output ← message.writeTo m (.new (message.calculateSize m))
  output.checkNoSpaceLeft
  pure output.buffer

end IMessage

end WzGame.Protobuf
