import WzGame.Util.Bytes

/-!
This module contains the streams in memory that the client reads packets from and writes them to.
-/

namespace WzGame

structure MemoryStream (β : Type) where
  buffer : List β
  position : Nat
deriving DecidableEq

namespace MemoryStream

variable {β : Type} {stream : MemoryStream β} {bytes bytes' : List β}

def empty : MemoryStream β := ⟨[], 0⟩

def seek (stream : MemoryStream β) (position : Nat) : MemoryStream β := { stream with position }

def write (stream : MemoryStream β) (bytes : List β) : MemoryStream β where
  buffer := stream.buffer.take stream.position ++ bytes
    ++ stream.buffer.drop (stream.position + bytes.length)
  position := stream.position + bytes.length

def ending (bytes : List β) : MemoryStream β := ⟨bytes, bytes.length⟩

@[simp]
theorem buffer_ending : (ending bytes).buffer = bytes := rfl

@[simp]
theorem position_ending : (ending bytes).position = bytes.length := rfl

@[simp]
theorem write_ending : (ending bytes).write bytes' = ending (bytes ++ bytes') := by
  simp [write, ending]

theorem write_seek_ending {old new rest : List β} (h : new.length = old.length)
    : (((ending (bytes ++ old ++ rest)).seek bytes.length).write new).seek
        (bytes ++ old ++ rest).length = ending (bytes ++ new ++ rest) := by
  have hdrop : (bytes ++ old ++ rest).drop (bytes.length + new.length) = rest := by
    rw [h, ← List.length_append, List.drop_left]
  simp only [write, seek, ending, hdrop]
  simp [h]

end MemoryStream

end WzGame
