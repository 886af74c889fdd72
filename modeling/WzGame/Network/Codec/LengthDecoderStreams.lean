import WzGame.Network.Codec.LengthDecoder

/-!
This module contains what becomes of a stream of frames that arrives in chunks: when each frame is taken
as it is, that a frame which is too short blocks the decoder for good, and that whatever is decoded was
at the front of the stream.
-/

namespace WzGame

open Netty Framing

namespace LengthDecoder

variable {α : Type} {read : List UInt8 → Int} {write : Nat → List UInt8}
  {parse : Nat → List UInt8 → Option α} {max : Nat} {c : Channel DecoderState α}
  {fs : List (List UInt8)}

/--
A packet can be made of frames of at least `min` bytes. What the channel is like after such frames and
a part of the next one, or after a last frame that is shorter.
-/
inductive Reached (write : Nat → List UInt8) (read : List UInt8 → Int)
    (parse : Nat → List UInt8 → Option α) (min : Nat)
    : List (List UInt8) → List UInt8 → Channel DecoderState α → Prop where
  | whole {done : List (List UInt8)} {r : List UInt8} :
      (∀ f ∈ done, min ≤ f.length) →
        Reached write read parse min done r (settle read (pass write parse start done r))
  | short {done : List (List UInt8)} {f : List UInt8} (threw : Bool) :
      f.length < min →
        Reached write read parse min (done ++ [f]) [] { pass write parse start (done ++ [f]) [] with
          state := ⟨f.length, marks 0 (done ++ [f])⟩
          threw }

section stream

variable {min : Nat} {done done' rest' : List (List UInt8)} {r r' chunk : List UInt8}

theorem short_last (hlast : ∀ f ∈ (done ++ done' ++ rest').dropLast, min ≤ f.length)
    (hshort : ¬ ∀ f ∈ done', min ≤ f.length)
    : ∃ init f, done' = init ++ [f] ∧ (∀ f' ∈ init, min ≤ f'.length) ∧ f.length < min
        ∧ rest' = [] := by
  have hrest : rest' = [] := by
    by_contra hne
    apply hshort
    intro f hf
    apply hlast f
    rw [List.dropLast_append_of_ne_nil hne]
    simp [hf]
  subst hrest
  rcases List.eq_nil_or_concat done' with rfl | ⟨init, f, rfl⟩
  . simp at hshort
  . rw [List.append_nil, List.concat_eq_append, ← List.append_assoc, List.dropLast_concat] at hlast
    refine ⟨init, f, List.concat_eq_append, fun f' hf' => hlast f' (by simp [hf']), ?_, rfl⟩
    by_contra hge
    apply hshort
    intro f' hf'
    rw [List.concat_eq_append, List.mem_append, List.mem_singleton] at hf'
    rcases hf' with hf' | rfl
    . exact hlast f' (by simp [hf'])
    . omega

theorem Reached.channelRead (A : Agrees write read max) (hmax : ∀ f ∈ fs, f.length ≤ max)
    (hparse : ∀ n f, parse n f = none ↔ f.length < min) (hlast : ∀ f ∈ fs.dropLast, min ≤ f.length)
    (hfs : fs = done ++ done' ++ rest') (H : Reached write read parse min done r c)
    (hr : Incomplete (frame write) r (done' ++ rest'))
    (hcut : r ++ chunk = done'.flatMap (frame write) ++ r')
    (hr' : Incomplete (frame write) r' rest')
    : Reached write read parse min (done ++ done') r'
        (Netty.channelRead (decode read parse) c chunk) := by
  have hsome : ∀ f, min ≤ f.length → ∀ n, parse n f ≠ none := by
    intro f hf n h
    have hlt := (hparse n f).mp h
    omega
  have hle : ∀ fs', fs' ⊆ fs → ∀ f ∈ fs', f.length ≤ max := fun fs' hfs' f hf => hmax f (hfs' hf)
  subst hfs
  cases H with
  | whole hdone =>
    have hread : Netty.channelRead (decode read parse) (settle read (pass write parse start done r))
        chunk = decodeAll (decode read parse) (pass write parse start done (r ++ chunk)) := by
      rw [channelRead_settle A (hle (done' ++ rest') (by simp)) rfl hr]
      rfl
    rw [hread, hcut]
    by_cases hgood : ∀ f ∈ done', min ≤ f.length
    . rw [decodeAll_frames A (hle done' (by simp)) (fun f hf => hsome f (hgood f hf)) rfl rfl,
        pass_pass A, decodeAll_incomplete A (hle rest' (by simp)) rfl rfl hr']
      apply Reached.whole
      intro f hf
      rcases List.mem_append.mp hf with hf | hf
      . exact hdone f hf
      . exact hgood f hf
    . obtain ⟨init, f, rfl, hinit, hf, rfl⟩ := short_last hlast hgood
      obtain rfl : r' = [] := hr'
      have hstream : (init ++ [f]).flatMap (frame write) ++ []
          = init.flatMap (frame write) ++ (frame write f ++ []) := by simp
      rw [hstream, decodeAll_frames A (hle init (by simp)) (fun f' hf' => hsome f' (hinit f' hf')) rfl
        rfl, pass_pass A, decodeAll_bad A (hmax f (by simp)) ((hparse _ _).mpr hf) rfl rfl, pass_pass A,
        ← List.append_assoc]
      have htaken : (pass write parse start (done ++ init) (frame write f ++ [])).state.taken
          ++ [((pass write parse start (done ++ init) (frame write f ++ [])).readerIndex + 2, f)]
            = marks 0 (done ++ init ++ [f]) := by
        rw [marks_append A]
        rfl
      rw [htaken]
      exact .short true hf
  | @short done f threw hf =>
    have hnil : done' ++ rest' = [] := by
      by_contra hne
      rw [List.append_assoc, List.append_assoc, List.dropLast_append_of_ne_nil (by simp)] at hlast
      have hle := hlast f (by
        rw [List.dropLast_append_of_ne_nil hne]
        simp)
      omega
    obtain ⟨rfl, rfl⟩ := List.append_eq_nil_iff.mp hnil
    obtain rfl : r' = [] := hr'
    obtain rfl : chunk = [] := hcut
    rw [List.append_nil]
    exact .short false hf

theorem reached_of_stream (A : Agrees write read max) (hmax : ∀ f ∈ fs, f.length ≤ max)
    (hparse : ∀ n f, parse n f = none ↔ f.length < min) (hlast : ∀ f ∈ fs.dropLast, min ≤ f.length)
    {chunks : List (List UInt8)} (hchunks : chunks.flatten = fs.flatMap (frame write))
    : Reached write read parse min fs []
        (chunks.foldl (Netty.channelRead (decode read parse)) start) := by
  refine reassemble_all ?_ (.whole (by simp)) ?_ hchunks
  . intro done r s chunk done' rest' r' H hr hcut hr' hfs
    exact H.channelRead A hmax hparse hlast hfs hr hcut hr'
  . intro f _ hnil
    have hlength := length_frame (f := f) A
    simp [hnil] at hlength
    omega

end stream

section short

variable {min : Nat} {L i : Nat} {taken : List (Nat × List UInt8)} {out : List α}

/--
The decoder has got the length of a frame that is too short: no more packets are decoded, and the next
bytes that are taken are the ones at `i`.
-/
structure Stuck (L i : Nat) (taken : List (Nat × List UInt8)) (out : List α)
    (c : Channel DecoderState α) : Prop where
  length : c.state.length = L
  out : c.out = out
  taken : (c.state.taken = taken ∧ c.readerIndex = i ∧ c.threw = false)
    ∨ ∃ obj more, c.state.taken = taken ++ (i, obj) :: more

theorem Stuck.decode (hparse : ∀ n f, parse n f = none ↔ f.length < min) (hL : L < min)
    (S : Stuck L i taken out c) (read : List UInt8 → Int)
    : Stuck L i taken out (decode read parse c).1
        ∧ (decode read parse c).1.out = c.out
        ∧ ((decode read parse c).2 = true
          → ∃ obj more, (decode read parse c).1.state.taken = taken ++ (i, obj) :: more) := by
  have hlength : c.state.length ≠ -1 := by
    rw [S.length]
    omega
  rw [LengthDecoder.decode, if_neg (fun h => hlength h.2), readLength, if_neg hlength, decodeFrame]
  split
  . exact ⟨S, rfl, by simp⟩
  . next hge =>
    rw [S.length, if_neg (by omega)]
    have hnone : parse c.out.length (c.input.take c.state.length.toNat) = none := by
      rw [hparse, S.length, List.length_take]
      omega
    have hmore : ∃ obj more, c.state.taken
        ++ [(c.readerIndex, c.input.take c.state.length.toNat)] = taken ++ (i, obj) :: more := by
      rcases S.taken with ⟨htaken, rfl, -⟩ | ⟨obj, more, htaken⟩
      . exact ⟨_, [], by rw [htaken]⟩
      . exact ⟨obj, more ++ [(c.readerIndex, c.input.take c.state.length.toNat)], by
          rw [htaken, List.append_assoc, List.cons_append]⟩
    simp only [readFrame, hnone]
    exact ⟨⟨S.length, S.out, .inr hmore⟩, rfl, fun _ => hmore⟩

theorem Stuck.channelRead (hparse : ∀ n f, parse n f = none ↔ f.length < min) (hL : L < min)
    (S : Stuck L i taken out c) {chunk : List UInt8}
    : Stuck L i taken out (Netty.channelRead (LengthDecoder.decode read parse) c chunk) := by
  rw [channelRead_eq]
  apply decodeAll_invariant (Stuck L i taken out)
  . intro c S
    exact (S.decode hparse hL read).1
  . intro c S hthrew
    obtain ⟨S', -, hmore⟩ := S.decode hparse hL read
    exact ⟨S'.length, S'.out, .inr (hmore hthrew)⟩
  . intro c S
    obtain ⟨S', hout, -⟩ := S.decode hparse hL read
    refine ⟨S'.length, S'.out, ?_⟩
    rcases S'.taken with ⟨htaken, hindex, -⟩ | hmore
    . exact .inl ⟨htaken, hindex, by simp [hout]⟩
    . exact .inr hmore
  . refine ⟨S.length, S.out, ?_⟩
    rcases S.taken with ⟨htaken, hindex, -⟩ | hmore
    . exact .inl ⟨htaken, hindex, rfl⟩
    . exact .inr hmore

theorem Stuck.foldl (hparse : ∀ n f, parse n f = none ↔ f.length < min) (hL : L < min)
    (S : Stuck L i taken out c) (read : List UInt8 → Int) (chunks : List (List UInt8))
    : Stuck L i taken out (chunks.foldl (Netty.channelRead (LengthDecoder.decode read parse)) c) := by
  induction chunks generalizing c with
  | nil => exact S
  | cons chunk chunks ih => exact ih (S.channelRead hparse hL)

/--
Each frame that has been taken has its own bytes, and the packets are those of the frames that have been
taken. No frame is left out, but that what follows an exception may wait for the next bytes.
-/
structure Delimited (parse : Nat → List UInt8 → Option α) (fs : List (List UInt8))
    (c : Channel DecoderState α) : Prop where
  taken : c.state.taken <+: marks 0 fs
  all : c.threw = false → c.state.taken = marks 0 fs
  out : c.out = parseAll parse 0 (c.state.taken.map Prod.snd)

theorem map_snd_marks : (marks i fs).map Prod.snd = fs := by
  induction fs generalizing i with
  | nil => rfl
  | cons f fs ih => rw [marks, List.map_cons, ih]

theorem exists_short {fs : List (List UInt8)} (h : ¬ ∀ f ∈ fs.dropLast, min ≤ f.length)
    : ∃ done f next rest, fs = done ++ f :: next :: rest ∧ (∀ f' ∈ done, min ≤ f'.length)
        ∧ f.length < min := by
  induction fs with
  | nil => simp at h
  | cons f fs ih =>
    cases fs with
    | nil => simp at h
    | cons next rest =>
      by_cases hf : f.length < min
      . exact ⟨[], f, next, rest, rfl, by simp, hf⟩
      . obtain ⟨done, f', next', rest', heq, hdone, hf'⟩ := ih (by
          intro hall
          apply h
          rw [List.dropLast_cons_cons]
          intro f' hf'
          rcases List.mem_cons.mp hf' with rfl | hf'
          . omega
          . exact hall f' hf')
        refine ⟨f :: done, f', next', rest', by rw [heq, List.cons_append], ?_, hf'⟩
        intro f₀ hf₀
        rcases List.mem_cons.mp hf₀ with rfl | hf₀
        . omega
        . exact hdone f₀ hf₀

theorem Reached.eq_pass (H : Reached write read parse min fs [] c)
    (hmin : ∀ f ∈ fs, min ≤ f.length) : c = pass write parse start fs [] := by
  cases H with
  | whole => exact if_pos (by simp [pass])
  | @short _ f _ hf =>
    have hle := hmin f (by simp)
    omega

theorem Reached.delimited (H : Reached write read parse min fs [] c) : Delimited parse fs c := by
  cases H with
  | whole hmin =>
    rw [(Reached.whole hmin : Reached write read parse min fs [] _).eq_pass hmin]
    exact ⟨List.prefix_rfl, fun _ => rfl, by simp [pass, start, Channel.open, map_snd_marks]⟩
  | short => exact ⟨List.prefix_rfl, fun _ => rfl, by simp [pass, start, Channel.open, map_snd_marks]⟩

theorem Reached.stuck (H : Reached write read parse min fs [] c) {f : List UInt8} (hmem : f ∈ fs)
    (hf : f.length < min)
    : ∃ L < min, Stuck L (fs.flatMap (frame write)).length (marks 0 fs) c.out
        { c with threw := false } := by
  cases H with
  | whole hgood =>
    have hge := hgood f hmem
    omega
  | @short _ f' _ hf' => exact ⟨f'.length, hf', rfl, rfl, .inl ⟨rfl, Nat.zero_add _, rfl⟩⟩

theorem not_delimited_of_short (A : Agrees write read max)
    (hparse : ∀ n f, parse n f = none ↔ f.length < min) {done rest : List (List UInt8)}
    {f next : List UInt8} (hmax : ∀ f' ∈ done ++ [f], f'.length ≤ max)
    (hdone : ∀ f' ∈ done, min ≤ f'.length) (hf : f.length < min)
    : ¬ Delimited parse (done ++ f :: next :: rest)
        (((done ++ f :: next :: rest).map (frame write)).foldl
          (Netty.channelRead (LengthDecoder.decode read parse)) start) := by
  have hchunks : ((done ++ [f]).map (frame write)).flatten = (done ++ [f]).flatMap (frame write) :=
    List.flatMap_def.symm
  have H := reached_of_stream A hmax hparse (by simpa using hdone) hchunks
  have hsplit : done ++ f :: next :: rest = (done ++ [f]) ++ next :: rest := by simp
  rw [hsplit, List.map_append, List.foldl_append]
  generalize ((done ++ [f]).map (frame write)).foldl
    (Netty.channelRead (LengthDecoder.decode read parse)) start = c at H
  obtain ⟨L, hL, S⟩ := H.stuck (f := f) (by simp) hf
  have S := S.foldl hparse hL read ((next :: rest).map (frame write))
  rintro ⟨htaken, hall, -⟩
  rw [List.map_cons, List.foldl_cons] at htaken hall
  have hmarks : marks 0 ((done ++ [f]) ++ next :: rest)
      = marks 0 (done ++ [f]) ++ marks ((done ++ [f]).flatMap (frame write)).length (next :: rest) := by
    rw [marks_append A, Nat.zero_add]
  rcases S.taken with ⟨hsame, -, hthrew⟩ | ⟨obj, more, hmore⟩
  . have hlength := congrArg List.length (hsame.symm.trans (hall hthrew))
    rw [hmarks, marks, List.length_append, List.length_cons] at hlength
    omega
  . have hle := hmore ▸ htaken
    rw [hmarks, List.prefix_append_right_inj, marks, List.cons_prefix_cons] at hle
    simp at hle

theorem delimited_iff (A : Agrees write read max) (hmax : ∀ f ∈ fs, f.length ≤ max)
    (hparse : ∀ n f, parse n f = none ↔ f.length < min)
    : (∀ chunks : List (List UInt8), chunks.flatten = fs.flatMap (frame write)
          → Delimited parse fs (chunks.foldl (Netty.channelRead (LengthDecoder.decode read parse)) start))
        ↔ ∀ f ∈ fs.dropLast, min ≤ f.length := by
  constructor
  . intro h
    by_contra hshort
    obtain ⟨done, f, next, rest, rfl, hdone, hf⟩ := exists_short hshort
    exact not_delimited_of_short A hparse (fun f' hf' => hmax f' (by
      simp only [List.mem_append, List.mem_cons] at hf' ⊢
      tauto)) hdone hf (h _ List.flatMap_def.symm)
  . intro hlast chunks hchunks
    exact (reached_of_stream A hmax hparse hlast hchunks).delimited

end short

section traced

variable {min : Nat} {received : List UInt8}

structure Entry (α : Type) where
  length : List UInt8
  obj : List UInt8
  packet : α

def Entry.bytes (e : Entry α) : List UInt8 := e.length ++ e.obj

structure Entry.Valid (read : List UInt8 → Int) (parse : Nat → List UInt8 → Option α) (n : Nat)
    (e : Entry α) : Prop where
  length : e.length.length = 2
  read : read e.length = e.obj.length
  packet : parse n e.obj = some e.packet

/--
The packets come from the front of what has been received, one entry after another. Behind them are
`pre`, which has been read, and the input; as soon as `pre` is anything but the next length, no packet
will come any more.
-/
structure Traced (read : List UInt8 → Int) (parse : Nat → List UInt8 → Option α) (min : Nat)
    (received : List UInt8) (c : Channel DecoderState α) : Prop where
  exists_entries : ∃ (es : List (Entry α)) (pre : List UInt8),
    received = es.flatMap Entry.bytes ++ pre ++ c.input
      ∧ c.out = es.map Entry.packet
      ∧ (∀ (n : Nat) (h : n < es.length), (es[n]).Valid read parse n)
      ∧ ((c.state.length = -1 ∧ pre = [])
        ∨ 0 ≤ c.state.length ∧ (pre.length = 2 ∧ read pre = c.state.length ∨ c.state.length < min))

theorem Traced.decode (hread : ∀ bs, 0 ≤ read bs)
    (hparse : ∀ n f, parse n f = none ↔ f.length < min) (T : Traced read parse min received c)
    : Traced read parse min received (decode read parse c).1 := by
  obtain ⟨es, pre, hreceived, hout, hvalid, hpre⟩ := T
  unfold LengthDecoder.decode
  split
  . exact ⟨es, pre, hreceived, hout, hvalid, hpre⟩
  . next hlong =>
    obtain ⟨pre', hreceived', hout', hnonneg, hpre'⟩ : ∃ pre' : List UInt8,
        received = es.flatMap Entry.bytes ++ pre' ++ (readLength read c).input
          ∧ (readLength read c).out = es.map Entry.packet ∧ 0 ≤ (readLength read c).state.length
          ∧ (pre'.length = 2 ∧ read pre' = (readLength read c).state.length
            ∨ (readLength read c).state.length < min) := by
      unfold readLength
      split
      . next hlength =>
        obtain ⟨-, rfl⟩ := hpre.resolve_right fun h => by omega
        refine ⟨c.input.take 2, ?_, hout, hread _, .inl ⟨?_, rfl⟩⟩
        . rw [hreceived, List.append_nil, List.append_assoc]
          simp [Channel.readBytes]
        . rw [List.length_take]
          omega
      . next hlength =>
        obtain ⟨hnonneg, hpre'⟩ := hpre.resolve_left fun h => hlength h.1
        exact ⟨pre, hreceived, hout, hnonneg, hpre'⟩
    generalize readLength read c = c' at hreceived' hout' hnonneg hpre'
    unfold decodeFrame
    split
    . exact ⟨es, pre', hreceived', hout', hvalid, .inr ⟨hnonneg, hpre'⟩⟩
    . next hge =>
      rw [if_neg (by omega)]
      have hobj : (c'.input.take c'.state.length.toNat).length = c'.state.length.toNat := by
        rw [List.length_take]
        omega
      have hinput : c'.input
          = c'.input.take c'.state.length.toNat ++ c'.input.drop c'.state.length.toNat :=
        (List.take_append_drop _ _).symm
      cases hpacket : parse c'.out.length (c'.input.take c'.state.length.toNat) with
      | none =>
        simp only [readFrame, hpacket]
        refine ⟨es, pre' ++ c'.input.take c'.state.length.toNat, ?_, hout', hvalid,
          .inr ⟨hnonneg, .inr ?_⟩⟩
        . rw [hreceived', List.append_assoc, List.append_assoc, List.append_assoc]
          congr 2
        . have hlt := (hparse _ _).mp hpacket
          show c'.state.length < (min : Int)
          omega
      | some packet =>
        have hge := mt (hparse c'.out.length (c'.input.take c'.state.length.toNat)).mpr
          (by simp [hpacket])
        obtain ⟨hlength, hread'⟩ := hpre'.resolve_right (by omega)
        simp only [readFrame, hpacket]
        refine ⟨es ++ [⟨pre', c'.input.take c'.state.length.toNat, packet⟩], [], ?_, ?_, ?_,
          .inl ⟨rfl, rfl⟩⟩
        . rw [hreceived', List.flatMap_append, List.append_nil, List.append_assoc, List.append_assoc]
          congr 1
          simp [Entry.bytes, Channel.readBytes]
        . simp [hout']
        . intro n hn
          rw [List.length_append, List.length_singleton] at hn
          by_cases hlt : n < es.length
          . rw [List.getElem_append_left hlt]
            exact hvalid n hlt
          . obtain rfl : n = es.length := by omega
            rw [List.getElem_append_right (by omega)]
            have hcount : c'.out.length = es.length := by rw [hout', List.length_map]
            simp only [Nat.sub_self, List.getElem_singleton]
            exact ⟨hlength, by rw [hread', hobj]; omega, hcount ▸ hpacket⟩

theorem traced_of_chunks (hread : ∀ bs, 0 ≤ read bs)
    (hparse : ∀ n f, parse n f = none ↔ f.length < min) (chunks : List (List UInt8))
    : Traced read parse min chunks.flatten
        (chunks.foldl (Netty.channelRead (LengthDecoder.decode read parse)) start) := by
  induction chunks using List.reverseRecOn with
  | nil => exact ⟨[], [], rfl, rfl, by simp, .inl ⟨rfl, rfl⟩⟩
  | append_singleton chunks chunk ih =>
    rw [List.flatten_concat, List.foldl_append, List.foldl_cons, List.foldl_nil, channelRead_eq]
    apply decodeAll_invariant (Traced read parse min (chunks.flatten ++ chunk))
    . intro c T
      exact T.decode hread hparse
    . intro c T _
      exact ⟨(T.decode hread hparse).exists_entries⟩
    . intro c T
      exact ⟨(T.decode hread hparse).exists_entries⟩
    . obtain ⟨es, pre, hreceived, hrest⟩ := ih
      exact ⟨es, pre, by rw [hreceived, List.append_assoc], hrest⟩

end traced

end LengthDecoder

end WzGame
