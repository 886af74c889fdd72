import WzGame.Net.NetManager

/-!
This module contains what the client makes of the streams of its connections, if each connection is
opened after whole frames.
-/

namespace WzGame

open Framing LogicRecvHandler Runs

namespace NetManager

variable {ω : Type} {factory : PacketFacotry ω Tagged} {sent : Nat → List (List UInt8)} {env : ω}
  {m D : Nat → Nat} {n c fuel : Nat} {s s' : State ω} {f : List UInt8}

@[simp]
theorem tagged_nil : tagged c [] = [] := rfl

@[simp]
theorem tagged_append {bytes bytes' : List UInt8}
    : tagged c (bytes ++ bytes') = tagged c bytes ++ tagged c bytes' := List.map_append

theorem tagged_injective : Function.Injective (tagged c) :=
  List.map_injective_iff.mpr (Prod.mk_right_injective c)

theorem fst_of_mem_tagged {bytes : List UInt8} {b : Tagged} (h : b ∈ tagged c bytes) : b.1 = c := by
  obtain ⟨byte, -, rfl⟩ := List.mem_map.mp h
  rfl

theorem valid_tagged (h : Valid id f) : Valid Prod.snd (tagged c f) := by
  have hsnd (bytes : List UInt8) : (tagged c bytes).map Prod.snd = bytes.map id := by
    rw [tagged, List.map_map]
    rfl
  have htake : (tagged c f).take 2 = tagged c (f.take 2) := List.map_take.symm
  have hlength : (tagged c f).length = f.length := List.length_map _
  refine ⟨hlength ▸ h.min, hlength ▸ h.max, ?_⟩
  rw [htake, hsnd, hlength]
  exact h.length

theorem flatten_map_tagged {fs : List (List UInt8)}
    : (fs.map (tagged c)).flatten = tagged c fs.flatten := List.map_flatten.symm

theorem frames_succ
    : frames sent D (n + 1) = frames sent D n ++ ((sent n).take (D n)).map (tagged n) := by
  rw [frames, List.range_succ, List.flatMap_append, List.flatMap_singleton]
  rfl

theorem frames_congr (h : ∀ i < n, D i = m i) : frames sent D n = frames sent m n := by
  rw [frames, frames, List.flatMap_def, List.flatMap_def, List.map_congr_left]
  intro i hi
  rw [h i (List.mem_range.mp hi)]

theorem frames_update {k : Nat}
    : frames sent (Function.update D n k) (n + 1)
        = frames sent D n ++ ((sent n).take k).map (tagged n) := by
  rw [frames_succ, Function.update_self, frames_congr]
  exact fun i hi => Function.update_of_ne hi.ne k D

theorem exists_frames {fs : List (List Tagged)} (h : fs <+: frames sent m n)
    : ∃ D, fs = frames sent D n := by
  induction n generalizing fs with
  | zero => exact ⟨m, List.prefix_nil.mp h⟩
  | succ n ih =>
    rw [frames_succ] at h
    rcases List.prefix_or_prefix_of_prefix h (List.prefix_append _ _) with hle | ⟨more, rfl⟩
    . obtain ⟨D, rfl⟩ := ih hle
      refine ⟨Function.update D n 0, ?_⟩
      rw [frames_update, List.take_zero, List.map_nil, List.append_nil]
    . have hmore := List.prefix_iff_eq_take.mp ((List.prefix_append_right_inj _).mp h)
      rw [← List.map_take, List.take_take] at hmore
      exact ⟨Function.update m n (min more.length (m n)), by rw [frames_update, ← hmore]⟩

def stream (sent : Nat → List (List UInt8)) (m : Nat → Nat) (c : Nat) : List (List Tagged) :=
  frames sent m c ++ (sent c).map (tagged c)

theorem exists_of_mem_stream {g : List Tagged} (h : g ∈ stream sent m c)
    : ∃ i, ∃ f ∈ sent i, g = tagged i f := by
  rcases List.mem_append.mp h with hframes | hlast
  . obtain ⟨i, -, hg⟩ := List.mem_flatMap.mp hframes
    obtain ⟨f, hf, rfl⟩ := List.mem_map.mp hg
    exact ⟨i, f, List.mem_of_mem_take hf, rfl⟩
  . obtain ⟨f, hf, rfl⟩ := List.mem_map.mp hlast
    exact ⟨c, f, hf, rfl⟩

theorem valid_of_mem_stream (hsent : ∀ i, ∀ f ∈ sent i, Valid id f) {g : List Tagged}
    (h : g ∈ stream sent m c) : Valid Prod.snd g := by
  obtain ⟨i, f, hf, rfl⟩ := exists_of_mem_stream h
  exact valid_tagged (hsent i f hf)

theorem ne_nil_of_mem_stream (hsent : ∀ i, ∀ f ∈ sent i, Valid id f) {g : List Tagged}
    (h : g ∈ stream sent m c) : g ≠ [] := (valid_of_mem_stream hsent h).ne_nil

/--
Of the older connections the first `m` frames have been received. What the handler has got of the
stream is made up of the frames `done`, and of the beginning `r` of the next one that remains.
-/
structure Reading (factory : PacketFacotry ω Tagged) (sent : Nat → List (List UInt8)) (env : ω)
    (m : Nat → Nat) (done rest : List (List Tagged)) (r : List Tagged) (s : State ω) : Prop where
  past : ∀ i < s.connection, s.received i = ((sent i).take (m i)).flatten
  current : s.received s.connection <+: (sent s.connection).flatten
  later : ∀ i, s.connection < i → s.received i = []
  split : stream sent m s.connection = done ++ rest
  bytes : done.flatten ++ (r ++ s.m_LogicRecvBufQueue.contents.flatten)
    = (frames sent m s.connection).flatten ++ tagged s.connection (s.received s.connection)
  incomplete : Incomplete (fun f => f) r rest
  handler : s.m_LogicRecvHandler = ⟨.ending r, (done.foldl (dispatch Prod.snd factory) (env, [])).1,
    (done.foldl (dispatch Prod.snd factory) (env, [])).2⟩
  queue : s.m_LogicRecvBufQueue.WellFormed
  sendBuf : ∃ bytes, s.m_LogicSendBuf = .ending bytes ∧ ∀ b ∈ bytes, b.1 = s.connection
  flushed : ∀ p ∈ s.flushed, ∀ b ∈ p.2, b.1 = p.1

variable {done rest : List (List Tagged)} {r : List Tagged}

theorem reading_start (hsent : ∀ i, ∀ f ∈ sent i, Valid id f)
    : Reading factory sent env (fun _ => 0) [] (stream sent (fun _ => 0) 0) [] (start env) where
  past := nofun
  current := List.nil_prefix
  later := fun _ _ => rfl
  split := rfl
  bytes := rfl
  incomplete := incomplete_nil fun f hf => ne_nil_of_mem_stream hsent hf
  handler := rfl
  queue := LogicRecvBufQueue.wellFormed_create (by decide)
  sendBuf := ⟨[], rfl, nofun⟩
  flushed := nofun

theorem Reading.connect (R : Reading factory sent env m done rest r s)
    (hsent : ∀ i, ∀ f ∈ sent i, Valid id f)
    (hframes : s.received s.connection = ((sent s.connection).take n).flatten)
    (hempty : s.m_LogicSendBuf.buffer = [])
    : ∃ m rest, Reading factory sent env m done rest r (connect s) := by
  have hne : ∀ f ∈ stream sent m s.connection, f ≠ [] := fun f hf => ne_nil_of_mem_stream hsent hf
  have hlater := R.later (s.connection + 1) (Nat.lt_succ_self _)
  have hpast : frames sent (Function.update m s.connection n) (s.connection + 1)
      <+: stream sent m s.connection := by
    rw [frames_update]
    exact (List.prefix_append_right_inj _).mpr ((List.take_prefix _ _).map _)
  have hbytes := R.bytes
  rw [hframes, ← flatten_map_tagged, ← List.flatten_append, ← frames_update] at hbytes
  have hdone : done <+: frames sent (Function.update m s.connection n) (s.connection + 1) := by
    apply prefix_of_flatMap hne (R.split ▸ List.prefix_append _ _) hpast
    rw [List.flatMap_id', List.flatMap_id', ← hbytes]
    exact List.prefix_append _ _
  obtain ⟨left, hleft⟩ := hdone
  obtain ⟨more, hmore⟩ := hpast
  have hsplit : stream sent (Function.update m s.connection n) (s.connection + 1)
      = done ++ (left ++ (sent (s.connection + 1)).map (tagged (s.connection + 1))) := by
    rw [stream, ← hleft, List.append_assoc]
  refine ⟨Function.update m s.connection n, _,
    { R with
      past := ?_
      current := ?_
      later := fun i hi => R.later i (Nat.lt_of_succ_lt hi)
      split := hsplit
      bytes := ?_
      incomplete := ?_
      sendBuf := ?_ }⟩
  . intro i hi
    rcases Nat.eq_or_lt_of_le (Nat.le_of_lt_succ hi) with rfl | hlt
    . rw [Function.update_self]
      exact hframes
    . rw [Function.update_of_ne hlt.ne]
      exact R.past i hlt
  . show s.received (s.connection + 1) <+: _
    rw [hlater]
    exact List.nil_prefix
  . show done.flatten ++ (r ++ s.m_LogicRecvBufQueue.contents.flatten)
      = (frames sent _ (s.connection + 1)).flatten ++ tagged _ (s.received (s.connection + 1))
    rw [hlater, tagged_nil, List.append_nil]
    exact hbytes
  . cases left with
    | nil =>
      rw [← hleft, List.append_nil] at hbytes
      have hnil : r = [] := (List.append_eq_nil_iff.mp (List.append_right_eq_self.mp hbytes)).1
      rw [hnil]
      refine incomplete_nil fun f hf => ?_
      have hstream : f ∈ stream sent (Function.update m s.connection n) (s.connection + 1) :=
        hsplit ▸ List.mem_append_right done hf
      exact ne_nil_of_mem_stream hsent hstream
    | cons f left =>
      have hincomplete := R.incomplete
      have hrest : done ++ (f :: left ++ more) = done ++ rest := by
        rw [← R.split, ← hmore, ← hleft, List.append_assoc]
      rw [← List.append_cancel_left hrest] at hincomplete
      exact hincomplete
  . obtain ⟨bytes, hbytes, -⟩ := R.sendBuf
    rw [hbytes] at hempty
    obtain rfl : bytes = [] := hempty
    exact ⟨[], hbytes, nofun⟩

theorem Reading.recvFromSocketBuf (R : Reading factory sent env m done rest r s)
    : Reading factory sent env m done rest r (recvFromSocketBuf s) := by
  unfold NetManager.recvFromSocketBuf
  split
  . exact R
  . split
    . exact R
    . exact { R with }

theorem Reading.onReceive (R : Reading factory sent env m done rest r s) {socket : Nat}
    {bytes : List UInt8} (hsent : s.received socket ++ bytes <+: (sent socket).flatten)
    (hclean : bytes ≠ [] → socket = s.connection ∧ s.m_LogicRecvBufQueue.FillsBehind)
    : Reading factory sent env m done rest r (onReceive s socket bytes) := by
  obtain ⟨W, hcontents⟩ := R.queue.getEmptyBuf
  simp only [NetManager.onReceive]
  by_cases hbytes : bytes = []
  . rw [if_pos hbytes]
    exact { R with
      bytes := by
        show done.flatten ++ (r ++ s.m_LogicRecvBufQueue.getEmptyBuf.1.contents.flatten) = _
        rw [hcontents]
        exact R.bytes
      queue := W }
  . rw [if_neg hbytes]
    obtain ⟨rfl, hbehind⟩ := hclean hbytes
    apply Reading.recvFromSocketBuf
    exact { R with
      past := by
        intro i hi
        exact (Function.update_of_ne hi.ne _ _).trans (R.past i hi)
      current := by
        show Function.update s.received s.connection _ s.connection <+: _
        rw [Function.update_self]
        exact hsent
      later := by
        intro i hi
        exact (Function.update_of_ne hi.ne' _ _).trans (R.later i hi)
      bytes := by
        show done.flatten ++ (r ++ (LogicRecvBufQueue.fill _ _ _).contents.flatten)
          = (frames sent m s.connection).flatten
            ++ tagged s.connection (Function.update s.received s.connection _ s.connection)
        rw [R.queue.fill hbehind, Function.update_self, tagged_append, ← List.append_assoc _ (tagged _ _),
          ← R.bytes]
        simp
      queue := W.set _ fun _ => rfl }

theorem Reading.pushPacket (R : Reading factory sent env m done rest r s) {packet : Packet}
    : Reading factory sent env m done rest r (pushPacket s packet) := by
  unfold NetManager.pushPacket
  split
  . obtain ⟨bytes, hbytes, htags⟩ := R.sendBuf
    exact { R with
      sendBuf := by
        refine ⟨bytes ++ tagged s.connection (packet.written bytes.length), ?_, fun b hb => ?_⟩
        . show packet.writePacket _ s.m_LogicSendBuf = _
          rw [hbytes, Packet.writePacket_ending]
          rfl
        . rcases List.mem_append.mp hb with hold | hnew
          . exact htags b hold
          . exact fst_of_mem_tagged hnew }
  . exact R

theorem Reading.sendToSocketBuf (R : Reading factory sent env m done rest r s)
    : Reading factory sent env m done rest r (sendToSocketBuf s) := by
  unfold NetManager.sendToSocketBuf
  split
  . exact R
  . split
    . exact R
    . obtain ⟨bytes, hbytes, htags⟩ := R.sendBuf
      exact { R with
        sendBuf := ⟨[], rfl, nofun⟩
        flushed := by
          intro p hp b hb
          rcases List.mem_append.mp hp with hold | hnew
          . exact R.flushed p hold b hb
          . obtain rfl := List.mem_singleton.mp hnew
            rw [hbytes] at hb
            exact htags b hb }

theorem processPacket_fuel {fuel' : Nat} {s'' : State ω} (h : processPacket factory fuel s = some s')
    (h' : processPacket factory fuel' s = some s'') : s' = s'' := by
  unfold NetManager.processPacket at h h'
  generalize s.m_LogicRecvBufQueue.getUsedBuf = used at h h'
  obtain ⟨q, buffer⟩ := used
  cases buffer with
  | none => exact Option.some.inj (h.symm.trans h')
  | some i =>
    obtain ⟨x, hx, rfl⟩ := Option.map_eq_some_iff.mp h
    obtain ⟨y, hy, rfl⟩ := Option.map_eq_some_iff.mp h'
    rw [LogicRecvHandler.processPacket_fuel hx hy]

theorem Reading.processPacket (R : Reading factory sent env m done rest r s)
    (hsent : ∀ i, ∀ f ∈ sent i, Valid id f)
    : ∃ fuel s' done rest r, processPacket factory fuel s = some s'
        ∧ Reading factory sent env m done rest r s' := by
  rcases R.queue.getUsedBuf with ⟨u, hget, hu, hnil, hnil'⟩ | ⟨i, u, chunk, hi, hget, hu, hbuffer, htake⟩
  . refine ⟨0, { s with m_LogicRecvBufQueue := { s.m_LogicRecvBufQueue with m_iUsedPos := u } },
      done, rest, r, ?_, { R with bytes := ?_, queue := R.queue.moveCursor hu }⟩
    . simp only [NetManager.processPacket, hget]
    . have hbytes := R.bytes
      rw [hnil, ← hnil'] at hbytes
      exact hbytes
  . have hcontent : (({ s.m_LogicRecvBufQueue with m_iUsedPos := u } : LogicRecvBufQueue _).buffer
        i).content.getD [] = chunk := congrArg (fun b => b.content.getD []) hbuffer
    have hvalid : ∀ g ∈ done ++ rest, Valid Prod.snd g := by
      intro g hg
      rw [← R.split] at hg
      exact valid_of_mem_stream hsent hg
    have hcurrent : (frames sent m s.connection).flatten ++ tagged s.connection (s.received s.connection)
        <+: (done ++ rest).flatten := by
      rw [← R.split, stream, List.flatten_append, flatten_map_tagged]
      exact (List.prefix_append_right_inj _).mpr (R.current.map _)
    rw [← R.bytes, List.flatten_append, List.prefix_append_right_inj, htake (some []),
      List.flatten_cons, ← List.append_assoc] at hcurrent
    have hcut : r ++ chunk <+: rest.flatMap fun f => f := by
      rw [List.flatMap_id']
      exact (List.prefix_append _ _).trans hcurrent
    obtain ⟨done', rest', r', rfl, hcut, hr'⟩ := exists_cut hcut
    rw [List.flatMap_id'] at hcut
    have hframes : LogicRecvHandler.processPacket Prod.snd factory (done'.flatten.length + 1)
        ⟨.ending r, (done.foldl (dispatch Prod.snd factory) (env, [])).1,
          (done.foldl (dispatch Prod.snd factory) (env, [])).2⟩ chunk = _ :=
      processPacket_frames (fun g hg => hvalid g (by simp [hg])) (fun g hg => hvalid g (by simp [hg]))
        hcut hr' (Nat.lt_succ_self _)
    rw [← R.handler, ← List.foldl_append] at hframes
    let content := (takeRemaining s.m_LogicRecvHandler.m_LogicRemainingBuf chunk).1
    have hprocess : NetManager.processPacket factory (done'.flatten.length + 1) s = some { s with
        m_LogicRecvHandler := ⟨.ending r',
          ((done ++ done').foldl (dispatch Prod.snd factory) (env, [])).1,
          ((done ++ done').foldl (dispatch Prod.snd factory) (env, [])).2⟩
        m_LogicRecvBufQueue := ({ s.m_LogicRecvBufQueue with m_iUsedPos := u } :
          LogicRecvBufQueue _).set i ⟨false, some content⟩ } := by
      simp only [NetManager.processPacket, hget, hcontent, hframes, Option.map_some]
      rfl
    refine ⟨_, _, done ++ done', rest', r', hprocess, { R with
      split := R.split.trans (List.append_assoc _ _ _).symm
      bytes := ?_
      incomplete := hr'
      handler := rfl
      queue := ?_ }⟩
    . have hbytes := R.bytes
      rw [htake (some content), List.flatten_cons, ← List.append_assoc r, hcut] at hbytes
      show (done ++ done').flatten ++ (r' ++ (LogicRecvBufQueue.set _ _ _).contents.flatten)
        = (frames sent m s.connection).flatten ++ tagged s.connection (s.received s.connection)
      rw [← hbytes]
      simp
    . exact (R.queue.moveCursor hu).set i fun _ => rfl

theorem Reading.step (R : Reading factory sent env m done rest r s)
    (hsent : ∀ i, ∀ f ∈ sent i, Valid id f) {a : Action}
    (hok : SentBy sent s a ∧ ConnectsClean sent s a) (h : step factory fuel s a = some s')
    : ∃ m done rest r, Reading factory sent env m done rest r s' := by
  cases a with
  | connect =>
    obtain rfl := Option.some.inj h
    obtain ⟨-, ⟨n, -, hframes⟩, hempty⟩ := hok
    obtain ⟨m, rest, R'⟩ := R.connect hsent hframes hempty
    exact ⟨m, done, rest, r, R'⟩
  | onConnect =>
    simp only [NetManager.step] at h
    split at h
    . obtain rfl := Option.some.inj h
      exact ⟨m, done, rest, r, { R with }⟩
    . contradiction
  | disconnect =>
    obtain rfl := Option.some.inj h
    exact ⟨m, done, rest, r, { R with }⟩
  | receive socket bytes =>
    simp only [NetManager.step] at h
    split at h
    . obtain rfl := Option.some.inj h
      exact ⟨m, done, rest, r, R.onReceive hok.1 hok.2⟩
    . contradiction
  | failReceive socket =>
    simp only [NetManager.step] at h
    split at h
    . obtain rfl := Option.some.inj h
      exact ⟨m, done, rest, r, { R with }⟩
    . contradiction
  | pushPacket packet =>
    obtain rfl := Option.some.inj h
    exact ⟨m, done, rest, r, R.pushPacket⟩
  | update =>
    obtain ⟨_, _, done, rest, r, hprocess, R'⟩ :=
      R.recvFromSocketBuf.sendToSocketBuf.processPacket hsent
    obtain rfl := processPacket_fuel h hprocess
    exact ⟨m, done, rest, r, R'⟩

theorem exists_received {fs : List (List Tagged)} {packet : Received Tagged}
    (h : packet ∈ (fs.foldl (dispatch Prod.snd factory) (env, [])).2)
    : ∃ f ∈ fs, packet = received Prod.snd f := by
  induction fs using List.reverseRecOn with
  | nil => contradiction
  | append_singleton fs f ih =>
    rw [List.foldl_append, List.foldl_cons, List.foldl_nil, dispatch] at h
    split at h
    . rcases List.mem_append.mp h with hold | hnew
      . obtain ⟨f', hf', heq⟩ := ih hold
        exact ⟨f', List.mem_append_left _ hf', heq⟩
      . exact ⟨f, by simp, List.mem_singleton.mp hnew⟩
    . obtain ⟨f', hf', heq⟩ := ih h
      exact ⟨f', List.mem_append_left _ hf', heq⟩

theorem Reading.single (R : Reading factory sent env m done rest r s)
    : ∀ packet ∈ s.m_LogicRecvHandler.packets, ∃ i, ∀ b ∈ packet.header ++ packet.bytes, b.1 = i := by
  intro packet hpacket
  rw [R.handler] at hpacket
  obtain ⟨g, hg, rfl⟩ := exists_received hpacket
  have hstream : g ∈ stream sent m s.connection := R.split ▸ List.mem_append_left rest hg
  obtain ⟨i, f, -, rfl⟩ := exists_of_mem_stream hstream
  refine ⟨i, fun b hb => ?_⟩
  rw [received, List.take_append_drop] at hb
  exact fst_of_mem_tagged hb

theorem incomplete_of_tagged {bytes : List UInt8} {fs : List (List UInt8)}
    (h : Incomplete (fun f => f) (tagged c bytes) (fs.map (tagged c)))
    : Incomplete (fun f => f) bytes fs := by
  cases fs with
  | nil => exact List.map_eq_nil_iff.mp h
  | cons f fs =>
    obtain ⟨hbegin, hlt⟩ := h
    refine ⟨(List.prefix_map_iff_of_injective (Prod.mk_right_injective c)).mp hbegin, ?_⟩
    rwa [tagged, tagged, List.length_map, List.length_map] at hlt

theorem Reading.drained (R : Reading factory sent env m done rest r s)
    (hsent : ∀ i, ∀ f ∈ sent i, Valid id f) (hempty : s.m_LogicRecvBufQueue.contents = [])
    : ∃ D, done = frames sent D (s.connection + 1) ∧ ∀ i ≤ s.connection,
      ∃ r, s.received i = ((sent i).take (D i)).flatten ++ r
        ∧ Incomplete (fun f => f) r ((sent i).drop (D i)) := by
  have hbytes := R.bytes
  rw [hempty, List.flatten_nil, List.append_nil] at hbytes
  obtain ⟨more, rfl⟩ : frames sent m s.connection <+: done := by
    apply prefix_of_incomplete R.incomplete R.split
    rw [List.flatMap_id', List.flatMap_id']
    exact hbytes
  have hsplit := R.split
  rw [stream, List.append_assoc, List.append_right_inj] at hsplit
  obtain ⟨fs, fs', hfs, rfl, rfl⟩ := List.map_eq_append_iff.mp hsplit
  rw [List.flatten_append, List.append_assoc, List.append_right_inj, flatten_map_tagged] at hbytes
  obtain ⟨bytes, r, hreceived, htagged, rfl⟩ := List.map_eq_append_iff.mp hbytes.symm
  obtain rfl := tagged_injective htagged
  refine ⟨Function.update m s.connection fs.length, ?_, fun i hi => ?_⟩
  . rw [frames_update, hfs, List.take_left]
  . rcases Nat.eq_or_lt_of_le hi with rfl | hlt
    . rw [Function.update_self, hfs, List.take_left, List.drop_left]
      exact ⟨r, hreceived, incomplete_of_tagged R.incomplete⟩
    . rw [Function.update_of_ne hlt.ne]
      refine ⟨[], by rw [List.append_nil, R.past i hlt], incomplete_nil fun f hf => ?_⟩
      exact (hsent i f (List.mem_of_mem_drop hf)).ne_nil

theorem Reading.clean (R : Reading factory sent env m done rest r s)
    (hsent : ∀ i, ∀ f ∈ sent i, Valid id f) : Clean factory sent env s where
  single := R.single
  flushed := R.flushed
  returns := by
    obtain ⟨fuel, s', _, _, _, hprocess, -⟩ := R.recvFromSocketBuf.sendToSocketBuf.processPacket hsent
    exact ⟨fuel, Option.isSome_of_eq_some hprocess⟩
  dispatched := by
    have hhandler : (s.m_LogicRecvHandler.env, s.m_LogicRecvHandler.packets)
        = done.foldl (dispatch Prod.snd factory) (env, []) := by rw [R.handler]
    by_cases hempty : s.m_LogicRecvBufQueue.contents = []
    . obtain ⟨D, rfl, hdrained⟩ := R.drained hsent hempty
      exact ⟨D, hhandler, fun _ => hdrained⟩
    . have hbegin : done <+: frames sent (Function.update m s.connection
          (sent s.connection).length) (s.connection + 1) := by
        rw [frames_update, List.take_length]
        show done <+: stream sent m s.connection
        rw [R.split]
        exact List.prefix_append done rest
      obtain ⟨D, rfl⟩ := exists_frames hbegin
      exact ⟨D, hhandler, fun h => absurd h hempty⟩

/-- If connections are only opened after whole frames, their streams are kept apart. -/
theorem clean_of_run (hsent : ∀ i, ∀ f ∈ sent i, Valid id f) {as : List Action}
    (hrun : Run (stepOf (step factory fuel)) (fun s a => SentBy sent s a ∧ ConnectsClean sent s a)
      (start env) as s)
    : Clean factory sent env s := by
  obtain ⟨m, done, rest, r, R⟩ := hrun.invariant
    (fun s => ∃ m done rest r, Reading factory sent env m done rest r s)
    ⟨_, _, _, _, reading_start hsent⟩
    fun s a s' ⟨m, done, rest, r, R⟩ hok hstep => R.step hsent hok hstep
  exact R.clean hsent

def twoFrames : Nat → List (List UInt8)
  | 1 => [[6, 0, 1, 0, 9, 9]]
  | 2 => [[4, 0, 2, 0]]
  | _ => []

theorem valid_twoFrames : ∀ i, ∀ f ∈ twoFrames i, Valid id f := by
  intro i f hf
  unfold twoFrames at hf
  split at hf
  . obtain rfl := List.mem_singleton.mp hf
    exact ⟨by decide, by decide, by decide⟩
  . obtain rfl := List.mem_singleton.mp hf
    exact ⟨by decide, by decide, by decide⟩
  . contradiction

def allPackets : PacketFacotry Unit Tagged := ⟨fun _ _ => some ⟨true, none⟩, fun env _ => env⟩

def answerAndConnect : List Action :=
  [.connect, .onConnect, .update, .receive 1 [6, 0, 1, 0, 9], .update, .receive 1 [9], .update,
    .pushPacket ⟨5, none⟩, .update, .disconnect, .connect, .onConnect, .update,
    .receive 2 [4, 0, 2, 0], .update]

theorem clean_of_run_answerAndConnect
    : ∃ s, Run (stepOf (step allPackets 20))
        (fun s a => SentBy twoFrames s a ∧ ConnectsClean twoFrames s a) (start ()) answerAndConnect s
      ∧ Clean allPackets twoFrames () s := by
  obtain ⟨s, hrun, -⟩ : ∃ s, Run (stepOf (step allPackets 20))
        (fun s a => SentBy twoFrames s a ∧ ConnectsClean twoFrames s a) (start ()) answerAndConnect s
      ∧ True := Run.exists_of_decide (by decide)
  exact ⟨s, hrun, clean_of_run valid_twoFrames hrun⟩

def cutAndConnect : List Action :=
  [.connect, .onConnect, .update, .receive 1 [6, 0, 1, 0, 9], .update, .receive 1 [], .connect,
    .onConnect, .update, .receive 2 [4, 0, 2, 0], .update]

theorem clean_counterexample
    : ∃ s, Run (stepOf (step allPackets 20)) (SentBy twoFrames) (start ()) cutAndConnect s
        ∧ ¬ Clean allPackets twoFrames () s := by
  obtain ⟨s, hrun, hpackets⟩ : ∃ s, Run (stepOf (step allPackets 20)) (SentBy twoFrames) (start ())
        cutAndConnect s
      ∧ s.m_LogicRecvHandler.packets = [⟨tagged 1 [6, 0, 1, 0], 1, tagged 1 [9] ++ tagged 2 [4]⟩] :=
    Run.exists_of_decide (by decide)
  refine ⟨s, hrun, fun hclean => ?_⟩
  obtain ⟨i, hi⟩ := hclean.single _ (hpackets ▸ List.mem_singleton_self _)
  have hfirst := hi (1, 9) (by decide)
  have hlast := hi (2, 4) (by decide)
  omega

end NetManager

end WzGame
