import Mathlib.Data.List.Basic

/-!
This module contains how netty's `ByteToMessageDecoder` collects the bytes of a channel and calls
`decode` on them.
-/

namespace Netty

/--
A channel: the attribute of its decoder, the bytes that have been received and not yet read, how many
have been read, the messages that have been decoded, and whether the last read ended with an exception.
-/
structure Channel (σ α : Type) where
  state : σ
  input : List UInt8
  readerIndex : Nat
  out : List α
  threw : Bool

variable {σ α : Type} {decode : Channel σ α → Channel σ α × Bool} {c : Channel σ α}

def Channel.open (state : σ) : Channel σ α := ⟨state, [], 0, [], false⟩

def Channel.readBytes (c : Channel σ α) (n : Nat) : Channel σ α :=
  { c with input := c.input.drop n, readerIndex := c.readerIndex + n }

/--
`callDecode`, where `decode` also says whether it throws. A call that reads nothing ends the loop, and
is an exception if it has decoded a message.
-/
def callDecode (decode : Channel σ α → Channel σ α × Bool) : Nat → Channel σ α → Channel σ α
  | 0, c => c
  | fuel + 1, c =>
    if c.input = [] then
      c
    else
      let (c', threw) := decode c
      if threw then
        { c' with threw := true }
      else if c'.input.length = c.input.length then
        { c' with threw := c'.out.length ≠ c.out.length }
      else
        callDecode decode fuel c'

def channelRead (decode : Channel σ α → Channel σ α × Bool) (c : Channel σ α) (bytes : List UInt8)
    : Channel σ α :=
  callDecode decode (c.input ++ bytes).length { c with input := c.input ++ bytes, threw := false }

def Reads (decode : Channel σ α → Channel σ α × Bool) : Prop :=
  ∀ c, ∃ n, (decode c).1.input = c.input.drop n

theorem Reads.length_le (hreads : Reads decode) : (decode c).1.input.length ≤ c.input.length := by
  obtain ⟨n, hn⟩ := hreads c
  rw [hn, List.length_drop]
  omega

theorem callDecode_fuel (hreads : Reads decode) {fuel fuel' : Nat} (hfuel : c.input.length ≤ fuel)
    (hfuel' : c.input.length ≤ fuel')
    : callDecode decode fuel c = callDecode decode fuel' c := by
  induction fuel generalizing c fuel' with
  | zero =>
    have hnil : c.input = [] := List.length_eq_zero_iff.mp (by omega)
    cases fuel' with
    | zero => rfl
    | succ fuel' => simp [callDecode, hnil]
  | succ fuel ih =>
    cases fuel' with
    | zero =>
      have hnil : c.input = [] := List.length_eq_zero_iff.mp (by omega)
      simp [callDecode, hnil]
    | succ fuel' =>
      have hle := hreads.length_le (c := c)
      simp only [callDecode]
      split
      . rfl
      . split
        . rfl
        . split
          . rfl
          . apply ih
            . omega
            . omega

def decodeAll (decode : Channel σ α → Channel σ α × Bool) (c : Channel σ α) : Channel σ α :=
  callDecode decode c.input.length c

theorem channelRead_eq {bytes : List UInt8}
    : channelRead decode c bytes
        = decodeAll decode { c with input := c.input ++ bytes, threw := false } := rfl

theorem decodeAll_nil (h : c.input = []) : decodeAll decode c = c := by
  simp [decodeAll, h, callDecode]

theorem decodeAll_threw (h : c.input ≠ []) (hthrew : (decode c).2 = true)
    : decodeAll decode c = { (decode c).1 with threw := true } := by
  obtain ⟨n, hn⟩ := Nat.exists_eq_succ_of_ne_zero (List.length_eq_zero_iff.not.mpr h)
  simp [decodeAll, hn, callDecode, h, hthrew]

theorem decodeAll_wait (h : c.input ≠ []) (hdecode : decode c = (c, false))
    : decodeAll decode c = { c with threw := false } := by
  obtain ⟨n, hn⟩ := Nat.exists_eq_succ_of_ne_zero (List.length_eq_zero_iff.not.mpr h)
  simp [decodeAll, hn, callDecode, h, hdecode]

theorem decodeAll_next (hreads : Reads decode) (hthrew : (decode c).2 = false)
    (hlength : (decode c).1.input.length ≠ c.input.length)
    : decodeAll decode c = decodeAll decode (decode c).1 := by
  have hle := hreads.length_le (c := c)
  obtain ⟨n, hn⟩ : ∃ n, c.input.length = n + 1 := ⟨c.input.length - 1, by omega⟩
  have hne : c.input ≠ [] := List.length_pos_iff.mp (by omega)
  unfold decodeAll
  rw [hn]
  simp only [callDecode, hne, hthrew, hlength, if_false, Bool.false_eq_true]
  apply callDecode_fuel hreads
  . omega
  . omega

theorem decodeAll_invariant (I : Channel σ α → Prop) (hdecode : ∀ c, I c → I (decode c).1)
    (hthrew : ∀ c, I c → (decode c).2 = true → I { (decode c).1 with threw := true })
    (hwait : ∀ c, I c
      → I { (decode c).1 with threw := (decode c).1.out.length ≠ c.out.length }) (h : I c)
    : I (decodeAll decode c) := by
  unfold decodeAll
  generalize c.input.length = fuel
  induction fuel generalizing c with
  | zero => exact h
  | succ fuel ih =>
    unfold callDecode
    split
    . exact h
    . simp only
      split
      . next hthrew' => exact hthrew c h hthrew'
      . split
        . exact hwait c h
        . exact ih (hdecode c h)

end Netty
