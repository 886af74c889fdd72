import WzGame.Util.Framing
import WzGame.Util.Netty

/-!
This module contains the decoders of frames with a length field, which keep the length of a frame while
its bytes have not all been received. They differ in how they read a length and what they make of the
bytes of a frame.
-/

namespace WzGame

open Netty Framing

/--
The length is -1 as long as it has not been read. The bytes of the frames are recorded, and where they
began.
-/
structure DecoderState where
  length : Int
  taken : List (Nat × List UInt8)

namespace LengthDecoder

variable {α : Type}

def start : Channel DecoderState α := .open ⟨-1, []⟩

def readLength (read : List UInt8 → Int) (c : Channel DecoderState α) : Channel DecoderState α :=
  if c.state.length = -1 then
    { c.readBytes 2 with state := { c.state with length := read (c.input.take 2) } }
  else
    c

-- Reading the bytes of a frame into `obj`. An exception leaves the length as it is.
def readFrame (parse : Nat → List UInt8 → Option α) (c : Channel DecoderState α)
    : Channel DecoderState α × Bool :=
  let obj := c.input.take c.state.length.toNat
  let taken := c.state.taken ++ [(c.readerIndex, obj)]
  let c' := c.readBytes c.state.length.toNat
  match parse c.out.length obj with
  | none => ({ c' with state := { c.state with taken } }, true)
  | some packet => ({ c' with out := c.out ++ [packet], state := ⟨-1, taken⟩ }, false)

-- What `decode` does once there is a length. Reading a negative number of bytes throws.
def decodeFrame (parse : Nat → List UInt8 → Option α) (c : Channel DecoderState α)
    : Channel DecoderState α × Bool :=
  if c.input.length < c.state.length then
    (c, false)
  else if c.state.length < 0 then
    (c, true)
  else
    readFrame parse c

def decode (read : List UInt8 → Int) (parse : Nat → List UInt8 → Option α)
    (c : Channel DecoderState α) : Channel DecoderState α × Bool :=
  if c.input.length < 2 ∧ c.state.length = -1 then
    (c, false)
  else
    decodeFrame parse (readLength read c)

def marks : Nat → List (List UInt8) → List (Nat × List UInt8)
  | _, [] => []
  | i, f :: fs => (i + 2, f) :: marks (i + 2 + f.length) fs

def parseAll (parse : Nat → List UInt8 → Option α) : Nat → List (List UInt8) → List α
  | _, [] => []
  | n, f :: fs =>
    match parse n f with
    | none => parseAll parse n fs
    | some packet => packet :: parseAll parse (n + 1) fs

structure Agrees (write : Nat → List UInt8) (read : List UInt8 → Int) (max : Nat) : Prop where
  length : ∀ n, (write n).length = 2
  read : ∀ n ≤ max, read (write n) = n

def frame (write : Nat → List UInt8) (f : List UInt8) : List UInt8 := write f.length ++ f

variable {read : List UInt8 → Int} {write : Nat → List UInt8} {parse : Nat → List UInt8 → Option α}
  {max : Nat} {c : Channel DecoderState α} {f rest : List UInt8} {fs : List (List UInt8)}

theorem input_readFrame : (readFrame parse c).1.input = c.input.drop c.state.length.toNat := by
  unfold readFrame
  simp only
  split
  . rfl
  . rfl

theorem reads : Reads (decode read parse) := by
  intro c
  have hlength : ∃ n, (readLength read c).input = c.input.drop n := by
    unfold readLength
    split
    . exact ⟨2, rfl⟩
    . exact ⟨0, rfl⟩
  obtain ⟨n, hn⟩ := hlength
  unfold decode decodeFrame
  split
  . exact ⟨0, rfl⟩
  . split
    . exact ⟨n, hn⟩
    . split
      . exact ⟨n, hn⟩
      . rw [input_readFrame, hn, List.drop_drop]
        exact ⟨_, rfl⟩

theorem length_frame (A : Agrees write read max) : (frame write f).length = 2 + f.length := by
  rw [frame, List.length_append, A.length]

theorem marks_append (A : Agrees write read max) {i : Nat} {fs' : List (List UInt8)}
    : marks i (fs ++ fs')
        = marks i fs ++ marks (i + (fs.flatMap (frame write)).length) fs' := by
  induction fs generalizing i with
  | nil => rfl
  | cons f fs ih =>
    rw [List.cons_append, marks, marks, ih, List.cons_append, List.flatMap_cons, List.length_append,
      length_frame A]
    congr 3
    omega

theorem parseAll_append {n : Nat} {fs' : List (List UInt8)}
    : parseAll parse n (fs ++ fs')
        = parseAll parse n fs ++ parseAll parse (n + (parseAll parse n fs).length) fs' := by
  induction fs generalizing n with
  | nil => rfl
  | cons f fs ih =>
    rw [List.cons_append, parseAll, parseAll]
    split
    . exact ih
    . rw [ih, List.cons_append, List.length_cons, Nat.add_right_comm, Nat.add_assoc]

def sized (c : Channel DecoderState α) (length : Int) (input : List UInt8)
    : Channel DecoderState α :=
  { c with state := { c.state with length }, input, readerIndex := c.readerIndex + 2 }

theorem readLength_eq (A : Agrees write read max) (hlength : c.state.length = -1)
    (hinput : c.input = write f.length ++ rest) (hmax : f.length ≤ max)
    : readLength read c = sized c f.length rest := by
  have htake : c.input.take 2 = write f.length := by
    rw [hinput, List.take_left' (A.length _)]
  have hdrop : c.input.drop 2 = rest := by
    rw [hinput, List.drop_left' (A.length _)]
  rw [readLength, if_pos hlength, htake, A.read _ hmax, Channel.readBytes, hdrop]
  rfl

theorem decode_frame (A : Agrees write read max) (hlength : c.state.length = -1)
    (hinput : c.input = frame write f ++ rest) (hmax : f.length ≤ max)
    : decode read parse c = readFrame parse (sized c f.length (f ++ rest)) := by
  have hlong : ¬ (c.input.length < 2 ∧ c.state.length = -1) := by
    rw [hinput, List.length_append, length_frame A]
    omega
  have hle : ¬ (((sized c f.length (f ++ rest)).input.length : Nat) : Int) < f.length := by
    rw [sized, List.length_append]
    omega
  have hle : ¬ (((sized c f.length (f ++ rest)).input.length : Nat) : Int) < f.length := by
    rw [sized, List.length_append]
    omega
  have hpos : ¬ (f.length : Int) < 0 := by omega
  rw [decode, if_neg hlong, readLength_eq A hlength (by rw [hinput, frame, List.append_assoc]) hmax]
  exact (if_neg hle).trans (if_neg hpos)

def pass (write : Nat → List UInt8) (parse : Nat → List UInt8 → Option α)
    (c : Channel DecoderState α) (fs : List (List UInt8)) (rest : List UInt8)
    : Channel DecoderState α :=
  { c with
    state := { c.state with taken := c.state.taken ++ marks c.readerIndex fs }
    input := rest
    readerIndex := c.readerIndex + (fs.flatMap (frame write)).length
    out := c.out ++ parseAll parse c.out.length fs }

theorem pass_nil (hinput : c.input = rest) : pass write parse c [] rest = c := by
  subst hinput
  simp [pass, marks, parseAll]

theorem pass_pass (A : Agrees write read max) {rest' : List UInt8} {fs' : List (List UInt8)}
    : pass write parse (pass write parse c fs rest) fs' rest'
        = pass write parse c (fs ++ fs') rest' := by
  simp [pass, marks_append A, parseAll_append, Nat.add_assoc]

theorem readFrame_some (hlength : c.state.length = -1) (hparse : parse c.out.length f ≠ none)
    (A : Agrees write read max)
    : readFrame parse (sized c f.length (f ++ rest)) = (pass write parse c [f] rest, false) := by
  obtain ⟨packet, hpacket⟩ := Option.ne_none_iff_exists'.mp hparse
  simp [readFrame, sized, pass, Channel.readBytes, marks, parseAll, hpacket, hlength, length_frame A,
    Nat.add_assoc]

theorem readFrame_none (hparse : parse c.out.length f = none) (A : Agrees write read max)
    : readFrame parse (sized c f.length (f ++ rest))
        = ({ pass write parse c [f] rest with
            state := ⟨f.length, c.state.taken ++ [(c.readerIndex + 2, f)]⟩ }, true) := by
  simp [readFrame, sized, pass, Channel.readBytes, parseAll, hparse, length_frame A, Nat.add_assoc]

theorem input_frame_ne_nil (A : Agrees write read max) (hinput : c.input = frame write f ++ rest)
    : c.input ≠ [] := by
  apply List.length_pos_iff.mp
  rw [hinput, List.length_append, length_frame A]
  omega

theorem decodeAll_frames (A : Agrees write read max) (hmax : ∀ f ∈ fs, f.length ≤ max)
    (hparse : ∀ f ∈ fs, ∀ n, parse n f ≠ none) (hlength : c.state.length = -1)
    (hinput : c.input = fs.flatMap (frame write) ++ rest)
    : decodeAll (decode read parse) c
        = decodeAll (decode read parse) (pass write parse c fs rest) := by
  induction fs generalizing c with
  | nil =>
    have hpass : pass write parse c [] rest = c := pass_nil hinput
    rw [hpass]
  | cons f fs ih =>
    rw [List.flatMap_cons, List.append_assoc] at hinput
    have hdecode : decode read parse c = readFrame parse (sized c f.length (f ++ _)) :=
      decode_frame A hlength hinput (hmax f (by simp))
    rw [readFrame_some hlength (hparse f (by simp) _) A] at hdecode
    rw [decodeAll_next reads]
    . rw [hdecode, ih, pass_pass A]
      . rfl
      . exact fun f' hf' => hmax f' (by simp [hf'])
      . exact fun f' hf' => hparse f' (by simp [hf'])
      . exact hlength
      . rfl
    . rw [hdecode]
    . rw [hdecode, hinput, List.length_append, length_frame A]
      simp only [pass]
      omega

theorem decodeAll_bad (A : Agrees write read max) (hmax : f.length ≤ max)
    (hparse : parse c.out.length f = none) (hlength : c.state.length = -1)
    (hinput : c.input = frame write f ++ rest)
    : decodeAll (decode read parse) c
        = { pass write parse c [f] rest with
            state := ⟨f.length, c.state.taken ++ [(c.readerIndex + 2, f)]⟩
            threw := true } := by
  have hdecode : decode read parse c = readFrame parse (sized c f.length (f ++ rest)) :=
    decode_frame A hlength hinput hmax
  rw [readFrame_none hparse A] at hdecode
  rw [decodeAll_threw (input_frame_ne_nil A hinput) (by rw [hdecode]), hdecode]

def settle (read : List UInt8 → Int) (c : Channel DecoderState α) : Channel DecoderState α :=
  if c.input.length < 2 then c else readLength read c

theorem settle_cases (A : Agrees write read max) (hmax : ∀ f ∈ fs, f.length ≤ max)
    (hlength : c.state.length = -1) (hinput : Incomplete (frame write) c.input fs)
    : (c.input.length < 2 ∧ settle read c = c)
      ∨ (2 ≤ c.input.length ∧ ∃ L r, c.input = write L ++ r ∧ r.length < L ∧ L ≤ max
        ∧ settle read c = sized c L r) := by
  unfold settle
  split
  . next hshort => exact .inl ⟨hshort, rfl⟩
  . next hlong =>
    refine .inr ⟨by omega, ?_⟩
    cases fs with
    | nil =>
      have hnil : c.input = [] := hinput
      simp [hnil] at hlong
    | cons f fs =>
      obtain ⟨hbegin, hlt⟩ := hinput
      have hwrite : write f.length <+: c.input := by
        apply List.prefix_of_prefix_length_le (List.prefix_append _ _) hbegin
        rw [A.length]
        omega
      obtain ⟨r, hr⟩ := hwrite
      rw [length_frame A, ← hr, List.length_append, A.length] at hlt
      exact ⟨f.length, r, hr.symm, by omega, hmax f (by simp),
        readLength_eq A hlength hr.symm (hmax f (by simp))⟩

theorem decode_sized {L : Nat} {r : List UInt8}
    : decode read parse (sized c L r) = decodeFrame parse (sized c L r) := by
  have hlength : (sized c L r).state.length ≠ -1 := by simp [sized]
  rw [decode, if_neg (fun h => hlength h.2), readLength, if_neg hlength]

theorem decode_sized_wait {L : Nat} {r : List UInt8} (h : r.length < L)
    : decode read parse (sized c L r) = (sized c L r, false) := by
  rw [decode_sized, decodeFrame, if_pos]
  simpa [sized] using h

theorem decodeAll_sized {L : Nat} {r : List UInt8} (A : Agrees write read max) (hL : L ≤ max)
    (hpos : 0 < L) (hlength : c.state.length = -1) (hinput : c.input = write L ++ r)
    : decodeAll (decode read parse) c = decodeAll (decode read parse) (sized c L r) := by
  have hinputLength : c.input.length = 2 + r.length := by
    rw [hinput, List.length_append, A.length]
  have hdecode : decode read parse c = decode read parse (sized c L r) := by
    have hread : readLength read c = sized c L r := by
      have hinput' : c.input = write (List.replicate L (0 : UInt8)).length ++ r := by
        rw [hinput, List.length_replicate]
      have hread := readLength_eq A hlength hinput' (by simpa using hL)
      simpa using hread
    rw [decode_sized, decode, if_neg (by omega), hread]
  have hle : (decode read parse (sized c L r)).1.input.length ≤ r.length := reads.length_le
  cases hthrew' : (decode read parse (sized c L r)).2 with
  | true =>
    have hne : r ≠ [] := by
      rintro rfl
      rw [decode_sized_wait hpos] at hthrew'
      contradiction
    rw [decodeAll_threw (List.length_pos_iff.mp (by omega)) (by rw [hdecode, hthrew']), hdecode]
    rw [decodeAll_threw hne hthrew']
  | false =>
    rw [decodeAll_next reads (by rw [hdecode, hthrew']) (by
      rw [hdecode]
      omega), hdecode]
    by_cases hwait : r.length < L
    . rw [decode_sized_wait hwait]
    . have hne : r ≠ [] := List.length_pos_iff.mp (by omega)
      symm
      apply decodeAll_next reads hthrew'
      have hframe : decode read parse (sized c L r) = readFrame parse (sized c L r) := by
        rw [decode_sized, decodeFrame, if_neg (by simpa [sized] using hwait), if_neg (by simp [sized])]
      rw [hframe, input_readFrame]
      simp only [sized, List.length_drop]
      omega

theorem decodeAll_incomplete (A : Agrees write read max) (hmax : ∀ f ∈ fs, f.length ≤ max)
    (hlength : c.state.length = -1) (hthrew : c.threw = false)
    (hinput : Incomplete (frame write) c.input fs)
    : decodeAll (decode read parse) c = settle read c := by
  obtain ⟨hshort, hsettle⟩ | ⟨hlong, L, r, hr, hlt, hL, hsettle⟩ := settle_cases A hmax hlength hinput
  . rw [hsettle]
    by_cases hnil : c.input = []
    . exact decodeAll_nil hnil
    . rw [decodeAll_wait hnil (by rw [decode, if_pos ⟨hshort, hlength⟩]), ← hthrew]
  . rw [hsettle, decodeAll_sized A hL (by omega) hlength hr]
    by_cases hnil : r = []
    . exact decodeAll_nil hnil
    . rw [decodeAll_wait hnil (decode_sized_wait hlt)]
      simp [sized, hthrew]

theorem channelRead_settle (A : Agrees write read max) (hmax : ∀ f ∈ fs, f.length ≤ max)
    (hlength : c.state.length = -1) (hinput : Incomplete (frame write) c.input fs)
    {chunk : List UInt8}
    : channelRead (decode read parse) (settle read c) chunk
        = channelRead (decode read parse) c chunk := by
  obtain ⟨-, hsettle⟩ | ⟨hlong, L, r, hr, hlt, hL, hsettle⟩ := settle_cases A hmax hlength hinput
  . rw [hsettle]
  . rw [hsettle, channelRead_eq, channelRead_eq]
    symm
    exact decodeAll_sized (c := { c with input := c.input ++ chunk, threw := false }) A hL
      (by omega) hlength (r := r ++ chunk) (by simp [hr])

end LengthDecoder

end WzGame
