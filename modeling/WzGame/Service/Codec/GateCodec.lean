import WzGame.Util.Bytes
import WzGame.Util.FixedInts
import WzGame.Util.NettyParses

/-!
This module contains the codec of the old gate, which does not wait for the rest of a frame, and when it takes every
frame as it has been written.
-/

namespace WzGame

open Netty Bytes

structure ClientMessage where
  code : Int32
  data : List UInt8
deriving DecidableEq

namespace GateCodec

def int (b : UInt8) : Int32 := b.toInt8.toInt32

def readShortLittleEndian (bytes : List UInt8) : Int16 :=
  let b := fun i => int (bytes.getD i 0)
  (b 1 * 256 + b 0).toInt16

def readIntLittleEndian (bytes : List UInt8) : Int32 :=
  let b := fun i => int (bytes.getD i 0)
  b 3 * 256 * 256 * 256 + b 2 * 256 * 256 + b 1 * 256 + b 0

-- `in.readBytes(bytes)`, which throws before it reads anything.
def readBytes (c : Channel Unit ClientMessage) (n : Nat) : Option (List UInt8 × Channel Unit ClientMessage) :=
  if c.input.length < n then none else some (c.input.take n, c.readBytes n)

def readShortLittle (c : Channel Unit ClientMessage) : Option (Int16 × Channel Unit ClientMessage) :=
  match readBytes c 2 with
  | none => none
  | some (bytes, c) => some (readShortLittleEndian bytes, c)

def readIntLittle (c : Channel Unit ClientMessage) : Option (Int32 × Channel Unit ClientMessage) :=
  match readBytes c 4 with
  | none => none
  | some (bytes, c) => some (readIntLittleEndian bytes, c)

def decode (c : Channel Unit ClientMessage) : Channel Unit ClientMessage × Bool :=
  match readShortLittle c with
  | none => (c, true)
  | some (code, c) =>
    match readIntLittle c with
    | none => (c, true)
    | some (packetLength, c) =>
      let length := packetLength &&& 0x000fffff
      match readBytes c length.toInt.toNat with
      | none => (c, true)
      | some (bytes, c) => ({ c with out := c.out ++ [⟨code.toInt32, bytes⟩] }, false)

def receive (chunks : List (List UInt8)) : Channel Unit ClientMessage := chunks.foldl (channelRead decode) (.open ())

end GateCodec

structure ClientFrame where
  code : Nat
  flags : Nat
  body : List UInt8
  code_lt : code < 2 ^ 15
  flags_lt : flags < 2 ^ 12
  body_lt : body.length < 2 ^ 20

namespace ClientFrame

def word (f : ClientFrame) : Nat := f.flags * 2 ^ 20 + f.body.length

def bytes (f : ClientFrame) : List UInt8 := littleEndian 2 f.code ++ littleEndian 4 f.word ++ f.body

def message (f : ClientFrame) : ClientMessage := ⟨.ofNat f.code, f.body⟩

def Small (f : ClientFrame) : Prop :=
  f.code % 256 < 128 ∧ f.body.length % 256 < 128 ∧ f.body.length / 256 % 256 < 128

end ClientFrame

namespace GateCodec

open ClientFrame

-- the messages are those of the frames, and no read has ended with an exception
def Framed (frames : List ClientFrame) (chunks : List (List UInt8)) : Prop :=
  (receive chunks).out = frames.map message ∧ Quiet decode (.open ()) chunks

def header (bytes : List UInt8) : Int32 × Nat :=
  ((readShortLittleEndian (bytes.take 2)).toInt32,
    (readIntLittleEndian ((bytes.drop 2).take 4) &&& 0x000fffff).toInt.toNat)

def parse (bytes : List UInt8) : Option (ClientMessage × List UInt8) :=
  let (code, length) := header bytes
  if bytes.length < 6 + length then
    none
  else
    some (⟨code, (bytes.drop 6).take length⟩, bytes.drop (6 + length))

variable {c : Channel Unit ClientMessage} {f : ClientFrame} {bytes rest tail : List UInt8} {m : ClientMessage}

theorem header_append (h : 6 ≤ bytes.length) : header (bytes ++ tail) = header bytes := by
  have htwo : 2 ≤ bytes.length := by omega
  have hfour : 4 ≤ (bytes.drop 2).length := by
    rw [List.length_drop]
    omega
  rw [header, header, List.take_append_of_le_length htwo, List.drop_append_of_le_length htwo,
    List.take_append_of_le_length hfour]

theorem parse_eq_some
    : parse bytes = some (m, rest)
        ↔ 6 + (header bytes).2 ≤ bytes.length ∧ m = ⟨(header bytes).1, (bytes.drop 6).take (header bytes).2⟩
            ∧ rest = bytes.drop (6 + (header bytes).2) := by
  simp only [parse]
  split
  . simp only [reduceCtorEq, false_iff]
    omega
  . next hlt =>
    simp only [Option.some.injEq, Prod.mk.injEq, Nat.not_lt.mp hlt, true_and]
    exact and_congr eq_comm eq_comm

theorem parse_append (h : parse bytes = some (m, rest)) : parse (bytes ++ tail) = some (m, rest ++ tail) := by
  obtain ⟨hle, rfl, rfl⟩ := parse_eq_some.mp h
  have hbody : (header bytes).2 ≤ (bytes.drop 6).length := by
    rw [List.length_drop]
    omega
  rw [parse_eq_some, header_append (by omega), List.length_append]
  refine ⟨by omega, ?_, (List.drop_append_of_le_length hle).symm⟩
  rw [List.drop_append_of_le_length (by omega), List.take_append_of_le_length hbody]

theorem readBytes_of_le {n : Nat} (h : n ≤ c.input.length)
    : readBytes c n = some (c.input.take n, c.readBytes n) := if_neg (Nat.not_lt.mpr h)

theorem decode_header (h : 6 ≤ c.input.length)
    : decode c
        = match readBytes ((c.readBytes 2).readBytes 4) (header c.input).2 with
          | none => ((c.readBytes 2).readBytes 4, true)
          | some (bytes, c') => ({ c' with out := c'.out ++ [⟨(header c.input).1, bytes⟩] }, false) := by
  have htwo : 2 ≤ c.input.length := by omega
  have hfour : 4 ≤ (c.readBytes 2).input.length := by
    simp only [Channel.readBytes, List.length_drop]
    omega
  rw [decode, readShortLittle, readBytes_of_le htwo]
  simp only
  rw [readIntLittle, readBytes_of_le hfour]
  rfl

theorem decode_of_parse (h : parse c.input = some (m, rest))
    : decode c
        = ({ c with
              input := rest
              readerIndex := c.readerIndex + 2 + 4 + (header c.input).2
              out := c.out ++ [m] }, false) := by
  obtain ⟨hle, rfl, rfl⟩ := parse_eq_some.mp h
  have hbody : (header c.input).2 ≤ ((c.readBytes 2).readBytes 4).input.length := by
    simp only [Channel.readBytes, List.length_drop]
    omega
  rw [decode_header (by omega), readBytes_of_le hbody]
  simp only [Channel.readBytes, List.drop_drop]

theorem decode_throws (h : parse c.input = none)
    : (decode c).2 = true ∧ ∃ n, (decode c).1.input = c.input.drop n := by
  by_cases hheader : 6 ≤ c.input.length
  . have hbody : ((c.readBytes 2).readBytes 4).input.length < (header c.input).2 := by
      simp only [Channel.readBytes, List.length_drop]
      by_contra hle
      have hsome := parse_eq_some.mpr ⟨show 6 + (header c.input).2 ≤ c.input.length by omega, rfl, rfl⟩
      rw [h] at hsome
      contradiction
    rw [decode_header hheader, readBytes, if_pos hbody]
    exact ⟨rfl, 6, List.drop_drop⟩
  . by_cases hcode : c.input.length < 2
    . rw [decode, readShortLittle, readBytes, if_pos hcode]
      exact ⟨rfl, 0, rfl⟩
    . have hword : (c.readBytes 2).input.length < 4 := by
        simp only [Channel.readBytes, List.length_drop]
        omega
      rw [decode, readShortLittle, readBytes_of_le (by omega)]
      simp only
      rw [readIntLittle, readBytes, if_pos hword]
      exact ⟨rfl, 2, rfl⟩

theorem takes : Takes decode parse where
  reads c := by
    cases hparse : parse c.input with
    | none => exact (decode_throws hparse).right
    | some found =>
      obtain ⟨m, rest⟩ := found
      rw [decode_of_parse hparse]
      exact ⟨_, (parse_eq_some.mp hparse).right.right⟩
  shorter {bytes m rest} h := by
    obtain ⟨hle, -, rfl⟩ := parse_eq_some.mp h
    rw [List.length_drop]
    omega
  takes {c m rest} h := by
    rw [decode_of_parse h]
    exact ⟨rfl, rfl, rfl, rfl⟩
  throws {c} h := (decode_throws h).left

def signed (n : Nat) : Int := n % 256 - if n % 256 < 128 then 0 else 256

theorem signed_eq (n : Nat) : signed n = n % 256 - if n % 256 < 128 then 0 else 256 := rfl

theorem int_ofNat (n : Nat) : int (.ofNat n) = .ofInt (signed n) := by
  rw [← Int32.toInt_inj, int, Int8.toInt_toInt32, UInt8.toInt_toInt8, UInt8.toNat_ofNat', signed_eq,
    Int32.toInt_ofInt_of_le]
  . split_ifs <;> omega
  . split_ifs <;> omega
  . split_ifs <;> omega

theorem readShortLittleEndian_code {n : Nat} (hn : n < 2 ^ 15)
    : (readShortLittleEndian (littleEndian 2 n)).toInt32 = .ofInt (n - if n % 256 < 128 then 0 else 256) := by
  have hvalue : int (.ofNat (n / 256)) * 256 + int (.ofNat n) = .ofInt (n - if n % 256 < 128 then 0 else 256) := by
    rw [int_ofNat, int_ofNat]
    change Int32.ofInt _ * Int32.ofInt 256 + Int32.ofInt _ = _
    rw [← Int32.ofInt_mul, ← Int32.ofInt_add, signed_eq, signed_eq]
    congr 1
    split_ifs <;> omega
  change (int (.ofNat (n / 256)) * 256 + int (.ofNat n)).toInt16.toInt32 = _
  rw [hvalue, Int32.toInt16_ofInt]
  apply Int16.toInt32_ofInt
  . change (-32768 : Int) ≤ _
    split_ifs <;> omega
  . change _ ≤ (32767 : Int)
    split_ifs <;> omega

theorem readIntLittleEndian_eq (n : Nat)
    : readIntLittleEndian (littleEndian 4 n)
        = .ofInt (signed (n / 256 / 256 / 256) * 256 * 256 * 256 + signed (n / 256 / 256) * 256 * 256
            + signed (n / 256) * 256 + signed n) := by
  have hbase : (256 : Int32) = .ofInt 256 := rfl
  change int (.ofNat (n / 256 / 256 / 256)) * 256 * 256 * 256 + int (.ofNat (n / 256 / 256)) * 256 * 256
    + int (.ofNat (n / 256)) * 256 + int (.ofNat n) = _
  simp only [int_ofNat, hbase, Int32.ofInt_mul, Int32.ofInt_add]

theorem readIntLittleEndian_word (n : Nat)
    : (readIntLittleEndian (littleEndian 4 n) &&& 0x000fffff).toInt
        = (n - (if n % 256 < 128 then 0 else 256) - if n / 256 % 256 < 128 then 0 else 65536) % 2 ^ 20 := by
  have hmask : (0x000fffff : Int32) = .ofNat (2 ^ 20 - 1) := rfl
  have hword : (2 : Int) ^ 20 ∣ ((Int32.size : Nat) : Int) := ⟨4096, rfl⟩
  rw [hmask, Int32.toInt_and_mask (by decide), readIntLittleEndian_eq, Int32.toInt_ofInt,
    ← Int.emod_emod_of_dvd _ hword, Int.bmod_emod, Int.emod_emod_of_dvd _ hword]
  simp only [signed_eq]
  split_ifs <;> omega

theorem header_frame (f : ClientFrame) (tail : List UInt8)
    : header (f.bytes ++ tail)
        = (.ofInt (f.code - if f.code % 256 < 128 then 0 else 256),
            ((f.word - (if f.word % 256 < 128 then 0 else 256) - if f.word / 256 % 256 < 128 then 0 else 65536 : Int)
              % 2 ^ 20).toNat) := by
  rw [← readShortLittleEndian_code f.code_lt, ← readIntLittleEndian_word]
  rfl

theorem header_frame_iff : header (f.bytes ++ tail) = (.ofNat f.code, f.body.length) ↔ f.Small := by
  have hcode := f.code_lt
  have hbody := f.body_lt
  have hword : f.word = f.flags * 2 ^ 20 + f.body.length := rfl
  rw [header_frame, Prod.mk.injEq, ← Int32.toInt_inj, Int32.toInt_ofNat_of_lt (by omega),
    Int32.toInt_ofInt_of_le (by split_ifs <;> omega) (by split_ifs <;> omega), ClientFrame.Small]
  apply and_congr
  . split_ifs <;> omega
  . split_ifs <;> omega

theorem length_bytes (f : ClientFrame) : f.bytes.length = 6 + f.body.length := by
  rw [ClientFrame.bytes, List.length_append, List.length_append, length_littleEndian, length_littleEndian]

theorem drop_bytes (f : ClientFrame) (tail : List UInt8) : (f.bytes ++ tail).drop 6 = f.body ++ tail := by
  simp [ClientFrame.bytes, littleEndian]

theorem parse_frame_iff : parse (f.bytes ++ tail) = some (f.message, rest) ↔ f.Small ∧ rest = tail := by
  rw [parse_eq_some, drop_bytes, List.length_append, length_bytes]
  constructor
  . rintro ⟨hle, hmessage, rfl⟩
    obtain ⟨hcode, hbody⟩ := ClientMessage.mk.inj hmessage
    have hlength : f.body.length = (header (f.bytes ++ tail)).2 := by
      have htake := congrArg List.length hbody
      rw [List.length_take, List.length_append] at htake
      omega
    have hheader : header (f.bytes ++ tail) = (.ofNat f.code, f.body.length) := Prod.ext hcode.symm hlength.symm
    refine ⟨header_frame_iff.mp hheader, ?_⟩
    rw [← hlength, ← length_bytes, List.drop_left]
  . rintro ⟨hsmall, rfl⟩
    rw [header_frame_iff.mpr hsmall]
    refine ⟨by simp only; omega, ?_, ?_⟩
    . rw [List.take_left]
      rfl
    . rw [← length_bytes, List.drop_left]

theorem parses_frames {frames : List ClientFrame} (hsmall : ∀ f ∈ frames, f.Small)
    : Parses parse (frames.flatMap ClientFrame.bytes) (frames.map message) := by
  induction frames with
  | nil => exact .nil
  | cons f frames ih =>
    obtain ⟨hf, hframes⟩ := List.forall_mem_cons.mp hsmall
    exact .cons (parse_frame_iff.mpr ⟨hf, rfl⟩) (ih hframes)

theorem frames_of_parses {chunk : List UInt8} {ms : List ClientMessage} (hms : Parses parse chunk ms)
    {frames : List ClientFrame} {later : List ClientMessage} (hbytes : chunk ++ tail = frames.flatMap ClientFrame.bytes)
    (hmessages : ms ++ later = frames.map message)
    : ∃ part others, frames = part ++ others ∧ chunk = part.flatMap ClientFrame.bytes
        ∧ tail = others.flatMap ClientFrame.bytes ∧ later = others.map message ∧ ∀ f ∈ part, f.Small := by
  induction hms generalizing frames with
  | nil => exact ⟨[], frames, rfl, rfl, hbytes, hmessages, by simp⟩
  | @cons bytes rest m ms hm _ ih =>
    cases frames with
    | nil => simp at hmessages
    | cons f frames =>
      rw [List.cons_append, List.map_cons, List.cons.injEq] at hmessages
      obtain ⟨rfl, hmessages'⟩ := hmessages
      rw [List.flatMap_cons] at hbytes
      have happend := @parse_append _ _ tail _ hm
      rw [hbytes] at happend
      obtain ⟨hsmall, hrest⟩ := parse_frame_iff.mp happend
      obtain ⟨part, others, rfl, rfl, htail, hlater, hpart⟩ := ih hrest hmessages'
      refine ⟨f :: part, others, rfl, ?_, htail, hlater, List.forall_mem_cons.mpr ⟨hsmall, hpart⟩⟩
      apply (List.append_left_inj tail).mp
      rw [hbytes, ← hrest, List.flatMap_cons, List.append_assoc]

theorem parts_of_parses {chunks : List (List UInt8)} {mss : List (List ClientMessage)}
    (hmss : List.Forall₂ (Parses parse) chunks mss) {frames : List ClientFrame}
    (hbytes : chunks.flatten = frames.flatMap ClientFrame.bytes) (hmessages : mss.flatten = frames.map message)
    : (∀ f ∈ frames, f.Small)
        ∧ ∃ parts : List (List ClientFrame),
            parts.flatten = frames ∧ parts.map (·.flatMap ClientFrame.bytes) = chunks := by
  induction hmss generalizing frames with
  | nil =>
    cases frames with
    | nil => exact ⟨by simp, [], rfl, rfl⟩
    | cons f frames => simp at hmessages
  | @cons chunk ms chunks mss hms _ ih =>
    obtain ⟨part, others, rfl, rfl, htail, hlater, hpart⟩ := frames_of_parses hms hbytes hmessages
    obtain ⟨hothers, parts, rfl, rfl⟩ := ih htail hlater
    exact ⟨List.forall_mem_append.mpr ⟨hpart, hothers⟩, part :: parts, rfl, rfl⟩

/-- The frames come through exactly if each chunk consists of whole frames with headers that are read as written. -/
theorem framed_iff {frames : List ClientFrame} {chunks : List (List UInt8)}
    (hchunks : chunks.flatten = frames.flatMap ClientFrame.bytes)
    : Framed frames chunks
        ↔ (∀ f ∈ frames, f.Small)
            ∧ ∃ parts : List (List ClientFrame),
                parts.flatten = frames ∧ parts.map (·.flatMap ClientFrame.bytes) = chunks := by
  constructor
  . rintro ⟨hout, hquiet⟩
    obtain ⟨mss, hmss⟩ := takes.exists_parses_of_quiet rfl hquiet
    have hmessages := (takes.run_parses (c := .open ()) rfl rfl hmss).right
    exact parts_of_parses hmss hchunks (hmessages.symm.trans hout)
  . rintro ⟨hsmall, parts, rfl, rfl⟩
    have hmss : List.Forall₂ (Parses parse) (parts.map (·.flatMap ClientFrame.bytes)) (parts.map (·.map message)) := by
      rw [List.forall₂_map_left_iff, List.forall₂_map_right_iff, List.forall₂_same]
      intro part hpart
      apply parses_frames
      intro f hf
      exact hsmall f (List.mem_flatten_of_mem hpart hf)
    obtain ⟨hquiet, hout⟩ := takes.run_parses (c := .open ()) rfl rfl hmss
    refine ⟨?_, hquiet⟩
    rw [receive, hout, List.map_flatten]
    rfl

theorem framed_iff_ping
    : Framed [⟨100, 3, [8, 1], by decide, by decide, by decide⟩, ⟨101, 0, [], by decide, by decide, by decide⟩]
        [[100, 0, 2, 0, 48, 0, 8, 1], [], [101, 0, 0, 0, 0, 0]] := by
  refine (framed_iff (by decide)).mpr ⟨?_, ?_⟩
  . simp [ClientFrame.Small]
  . exact ⟨[[⟨100, 3, [8, 1], by decide, by decide, by decide⟩], [], [⟨101, 0, [], by decide, by decide, by decide⟩]],
      rfl, rfl⟩

theorem framed_counterexample
    : ¬ ∀ (frames : List ClientFrame) (chunks : List (List UInt8)),
        chunks.flatten = frames.flatMap ClientFrame.bytes → Framed frames chunks := by
  intro h
  have hframed := h [⟨101, 0, [], by decide, by decide, by decide⟩] [[101], [0, 0, 0, 0, 0]] (by decide)
  exact absurd (hframed.2 [[101]] (by decide)) (by decide)

end GateCodec

end WzGame
