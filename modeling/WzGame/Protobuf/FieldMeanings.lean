import WzGame.Protobuf.Meaning
import Mathlib.Data.List.TakeWhile

/-!
This module contains what each kind of field means.
-/

namespace WzGame.Protobuf

open CodedInputStream CodedOutputStream Wire

variable {M N A T K V : Type} {s s' : CodedInputStream} {bs : List UInt8} {depth : Nat}

theorem Goes.ready (h : Goes s bs s') : s'.Ready bs := .here h.next h.holds

namespace Field

def Meaning.along {field : Field A} {get : M → A} {set : M → A → M} (lens : Lens get set)
    (meaning : field.Meaning depth) : (field.along get set).Meaning depth where
  merges := Wire.along get set meaning.merges
  copy m acc := set acc (meaning.copy (get m) (get acc))
  reads := by
    rintro s r rs m _ h hlast htag ⟨a, ha, rfl⟩
    obtain ⟨rs₁, rs₂, hrs, htags, hread⟩ := meaning.reads h hlast htag ha
    refine ⟨rs₁, rs₂, hrs, htags, ?_⟩
    intro m'' hm
    obtain ⟨hmerged, heq⟩ := hm.of_along lens
    rw [lens.get_set] at hmerged
    rw [lens.set_set] at heq
    obtain ⟨s', hs', hready, hframe⟩ := hread hmerged
    refine ⟨s', ?_, hready, hframe⟩
    show (field.mergeFrom (get m) s >>= fun p => pure (set m p.1, p.2)) = _
    rw [hs']
    exact congrArg (fun m => Except.ok (m, s')) heq.symm
  written := by
    intro m hsize
    obtain ⟨rs, htags, hlength, hwrite, hmerged⟩ := meaning.written hsize
    exact ⟨rs, htags, hlength, hwrite, fun acc => (hmerged (get acc)).along lens⟩

theorem reads_one {field : Field A} {merges : Record → A → A → Prop} {r : Record} {rs : List Record} {a a' : A}
    (h : ∃ s', field.mergeFrom a s = .ok (a', s') ∧ Goes s (encodes rs) s')
    : ∃ rs₁ rs₂, rs = rs₁ ++ rs₂ ∧ (∀ r' ∈ rs₁, r'.tag = r.tag) ∧ ∀ {a''}, Merged merges rs₁ a' a'' →
        ∃ s', field.mergeFrom a s = .ok (a'', s') ∧ s'.Ready (encodes rs₂)
          ∧ (rs₂ ≠ [] ∨ s.currentLimit ≠ maxValue → s'.frame = s.frame) := by
  obtain ⟨s', hread, hgoes⟩ := h
  refine ⟨[], rs, rfl, by simp, ?_⟩
  rintro _ ⟨⟩
  exact ⟨s', hread, hgoes.ready, fun _ => hgoes.frame⟩

theorem tag_mem {tag : UInt32} {payload : Payload} {hmin : 8 ≤ tag.toNat} (hwire : tag.toNat % 8 = payload.wireType)
    : UInt32.ofNat (Record.ofTag tag.toNat payload hmin tag.toNat_lt).tag = tag := by
  rw [Record.tag_ofTag hwire, UInt32.ofNat_toNat]

theorem encodes_ofTag {tag : UInt32} {payload : Payload} {hmin : 8 ≤ tag.toNat}
    (hwire : tag.toNat % 8 = payload.wireType)
    : encodes [Record.ofTag tag.toNat payload hmin tag.toNat_lt] = Varint.write tag.toNat ++ payload.encode := by
  rw [encodes_cons, encodes_nil, List.append_nil, Record.tag_ofTag hwire]
  rfl

theorem length_write_tag {tag : Nat} (hraw : tag < 128) : (Varint.write tag).length = 1 := by
  rw [Varint.write_of_lt hraw, List.length_singleton]

theorem writeRawTag_toUInt8 {tag : UInt32} (hraw : tag.toNat < 128) (o : CodedOutputStream)
    : o.writeRawTag tag.toUInt8 = o.put (Varint.write tag.toNat) := by
  have htag : tag.toUInt8.toNat = tag.toNat := by
    rw [UInt32.toNat_toUInt8]
    omega
  rw [writeRawTag_eq (UInt8.lt_iff_toNat_lt.mpr (by rw [htag]; exact hraw)), htag]

def valueMeaning [DecidableEq T] {codec : ValueCodec T} (meaning : codec.toFieldCodec.Meaning depth)
    (hwire : codec.tag.toNat % 8 = meaning.wireType) (hmin : 8 ≤ codec.tag.toNat) (hraw : codec.tag.toNat < 128)
    : (value codec).Meaning depth where
  merges r _ v := meaning.denotes r.payload v
  copy v acc := if v ≠ codec.defaultValue then v else acc
  reads h _ _ hv := reads_one (meaning.reads h hv)
  written := by
    intro v hsize
    simp only [value] at hsize ⊢
    split
    case isTrue hv =>
      rw [if_pos hv] at hsize
      obtain ⟨p, hdenotes, htype, hlength, hwrite⟩ := meaning.written (v := v) (by omega)
      rw [← htype] at hwire
      refine ⟨[.ofTag codec.tag.toNat p hmin codec.tag.toNat_lt], by simp [tag_mem hwire], ?_, fun o => ?_,
        fun acc => ?_⟩
      . rw [encodes_ofTag hwire, List.length_append, length_write_tag hraw, hlength]
      . rw [writeRawTag_toUInt8 hraw, encodes_ofTag hwire, put_append]
        congr 1
        funext o
        exact hwrite o
      . exact .single hdenotes
    case isFalse =>
      exact ⟨[], by simp, rfl, fun o => put_nil.symm, fun acc => .nil⟩

def entryMeaning [DecidableEq T] {codec : ValueCodec T} (meaning : codec.toFieldCodec.Meaning depth)
    (hwire : codec.tag.toNat % 8 = meaning.wireType) (hmin : 8 ≤ codec.tag.toNat)
    : (MapField.Codec.field codec).Meaning depth where
  merges r _ v := meaning.denotes r.payload v
  copy v acc := if v ≠ codec.defaultValue then v else acc
  reads h _ _ hv := reads_one (meaning.reads h hv)
  written := by
    intro v hsize
    simp only [MapField.Codec.field, ValueCodec.calculateSizeWithTag, ValueCodec.writeTagAndValue, ne_eq] at hsize ⊢
    by_cases hv : v = codec.defaultValue
    . simp only [hv, if_true, not_true_eq_false, if_false]
      exact ⟨[], by simp, rfl, fun o => put_nil.symm, fun acc => .nil⟩
    . simp only [hv, if_false, not_false_eq_true, if_true] at hsize ⊢
      obtain ⟨p, hdenotes, htype, hlength, hwrite⟩ := meaning.written (v := v) (by omega)
      rw [← htype] at hwire
      refine ⟨[.ofTag codec.tag.toNat p hmin codec.tag.toNat_lt], by simp [tag_mem hwire], ?_, fun o => ?_,
        fun acc => .single hdenotes⟩
      . rw [encodes_ofTag hwire, List.length_append, computeRawVarint32Size_eq, hlength, Nat.add_comm]
      . rw [writeTag_eq, encodes_ofTag hwire, put_append]
        congr 1
        funext o
        exact hwrite o

theorem nullable_written {message : IMessage N} {meaning : message.Meaning depth} {tag : UInt32} {new v : N}
    (hwire : tag.toNat % 8 = 2) (hmin : 8 ≤ tag.toNat) (hraw : tag.toNat < 128)
    (hsize : (nullable tag message new).calculateSize (some v) < 2 ^ 31)
    : ∃ (r : Record) (rs : List Record) (hlength : (encodes rs).length < 2 ^ 31), .ofNat r.tag = tag
        ∧ (encodes [r]).length = (nullable tag message new).calculateSize (some v)
        ∧ (∀ o, (nullable tag message new).writeTo (some v) o = o.put (encodes [r]))
        ∧ r.payload = .bytes (encodes rs) hlength
        ∧ ∀ m, Merged meaning.merges rs m (meaning.copy v m) := by
  simp only [nullable] at hsize ⊢
  obtain ⟨rs, hlength, heq, hwrite, hmerged⟩ := meaning.writtenMessage (m := v) (by omega)
  replace hwire : tag.toNat % 8 = (Payload.bytes (encodes rs) hlength).wireType := hwire
  refine ⟨.ofTag tag.toNat (.bytes (encodes rs) hlength) hmin tag.toNat_lt, rs, hlength, tag_mem hwire, ?_,
    fun o => ?_, rfl, hmerged⟩
  . rw [encodes_ofTag hwire, List.length_append, length_write_tag hraw, heq]
  . rw [writeRawTag_toUInt8 hraw, encodes_ofTag hwire, put_append]
    congr 1
    funext o
    exact hwrite o

def nullableMeaning {message : IMessage N} (meaning : message.Meaning depth) {tag : UInt32} {new : N}
    (hwire : tag.toNat % 8 = 2) (hmin : 8 ≤ tag.toNat) (hraw : tag.toNat < 128)
    : (nullable tag message new).Meaning (depth + 1) where
  merges r a a' := ∃ rs h v, r.payload = .bytes (encodes rs) h ∧ Merged meaning.merges rs (a.getD new) v ∧ a' = some v
  copy a acc := a.elim acc fun v => some (meaning.copy v (acc.getD new))
  reads := by
    rintro s r rs a _ h _ _ ⟨content, hlength, v, hpayload, hm, rfl⟩
    rw [hpayload] at h
    obtain ⟨s', hread, hgoes⟩ := meaning.readMessage h hm
    refine reads_one ⟨s', ?_, hgoes⟩
    show (readMessage message (a.getD new) s >>= fun p => pure (some p.1, p.2)) = _
    rw [hread]
    rfl
  written := by
    rintro (_ | v) hsize
    . exact ⟨[], nofun, rfl, fun o => put_nil.symm, fun acc => .nil⟩
    . obtain ⟨r, rs, hlength, htag, heq, hwrite, hpayload, hmerged⟩ := nullable_written hwire hmin hraw hsize
      refine ⟨[r], fun r' hr => ?_, heq.symm, hwrite, fun acc => .single ⟨rs, hlength, _, hpayload, hmerged _, rfl⟩⟩
      obtain rfl := List.mem_singleton.mp hr
      exact List.mem_singleton.mpr htag

end Field

def Steps (step : A → CodedInputStream → Except Exception (A × CodedInputStream)) (merges : Record → A → A → Prop)
    (depth : Nat) : Prop :=
  ∀ (s : CodedInputStream) (r : Record) (a a' : A) (bs : List UInt8), Start s depth (r.payload.encode ++ bs) →
    merges r a a' → ∃ s', step a s = .ok (a', s') ∧ Goes s bs s'

theorem Steps.doWhileTag {step : A → CodedInputStream → Except Exception (A × CodedInputStream)}
    {merges : Record → A → A → Prop} (hstep : Steps step merges depth) {r : Record} {rs : List Record} {a a' a'' : A}
    {fuel : Nat} (h : Start s depth (r.payload.encode ++ encodes rs)) (hr : merges r a a')
    (hrs : Merged merges (rs.takeWhile fun r' => r'.tag = r.tag) a' a'') (hfuel : rs.length < fuel)
    : ∃ s', doWhileTag step (.ofNat r.tag) fuel a s = .ok (a'', s')
        ∧ s'.Ready (encodes (rs.dropWhile fun r' => r'.tag = r.tag))
        ∧ ((rs.dropWhile fun r' => r'.tag = r.tag) ≠ [] ∨ s.currentLimit ≠ maxValue → s'.frame = s.frame) := by
  have htag (r : Record) : 0 < r.tag := Nat.lt_of_lt_of_le (by decide) r.le_tag
  induction rs generalizing r a a' s fuel with
  | nil =>
    obtain ⟨fuel, rfl⟩ := Nat.exists_eq_succ_of_ne_zero (Nat.ne_of_gt hfuel)
    obtain ⟨s₁, hread, hgoes⟩ := hstep _ _ _ _ _ h hr
    obtain ⟨s₂, hmore, hframe, hready⟩ := hgoes.holds.maybeConsumeTag_nil hgoes.next
      (ofNat_tag_ne_zero r.tag_lt (htag r))
    cases hrs
    refine ⟨s₂, ?_, hready, ?_⟩
    . simp only [Protobuf.doWhileTag, hread, ok_bind, hmore]
      rfl
    . rintro (h' | hlimit)
      . exact absurd rfl h'
      . rw [← currentLimit_of_frame hgoes.frame] at hlimit
        exact (hframe (h.of_goes hgoes).wf hlimit).trans hgoes.frame
  | cons r' rs ih =>
    obtain ⟨fuel, rfl⟩ := Nat.exists_eq_succ_of_ne_zero (Nat.ne_of_gt (Nat.zero_lt_of_lt hfuel))
    rw [encodes_cons] at h
    obtain ⟨s₁, hread, hgoes⟩ := hstep _ _ _ _ _ h hr
    obtain ⟨s₂, hmore, hframe, -, hrest⟩ :=
      hgoes.holds.maybeConsumeTag (t := .ofNat r.tag) hgoes.next (htag r') r'.tag_lt
    by_cases heq : r'.tag = r.tag
    . rw [List.takeWhile_cons_of_pos (by simpa using heq)] at hrs
      rw [List.dropWhile_cons_of_pos (by simpa using heq)]
      rw [heq, if_pos rfl] at hrest
      rw [heq, decide_eq_true rfl] at hmore
      have hgoes₂ : Goes s _ s₂ := ⟨hrest.2, hframe.trans hgoes.frame, hrest.1⟩
      cases hrs with
      | cons hr' hrs =>
        rw [← heq] at hrs ⊢
        obtain ⟨s', hloop, hready, hframe'⟩ := ih (h.of_goes hgoes₂) hr' hrs (Nat.lt_of_succ_lt_succ hfuel)
        refine ⟨s', ?_, hready, fun h' => (hframe' ?_).trans hgoes₂.frame⟩
        . simp only [Protobuf.doWhileTag, hread, ok_bind, heq, hmore, if_true]
          rw [← heq]
          exact hloop
        . rwa [currentLimit_of_frame hgoes₂.frame]
    . rw [List.takeWhile_cons_of_neg (by simpa using heq)] at hrs
      rw [List.dropWhile_cons_of_neg (by simpa using heq)]
      rw [if_neg (mt Record.tag_inj.mp heq)] at hrest
      rw [decide_eq_false (mt Record.tag_inj.mp heq)] at hmore
      cases hrs
      refine ⟨s₂, ?_, by rw [encodes_cons]; exact hrest, fun _ => hframe.trans hgoes.frame⟩
      simp only [Protobuf.doWhileTag, hread, ok_bind, hmore]
      rfl

namespace RepeatedField

variable {codec : FieldCodec T} {values added : RepeatedField T}

theorem steps_add (meaning : codec.Meaning depth)
    : Steps (add codec) (fun r values values' => ∃ v, meaning.denotes r.payload v ∧ values' = values ++ [v]) depth := by
  rintro s r values _ bs h ⟨v, hv, rfl⟩
  obtain ⟨s', hread, hgoes⟩ := meaning.reads h hv
  refine ⟨s', ?_, hgoes⟩
  simp only [add, hread, ok_bind]
  rfl

theorem addPacked_eq (meaning : codec.Meaning depth) (values : RepeatedField T) {ps : List Payload} {fuel : Nat}
    (h : Start s depth (ps.flatMap Payload.encode)) (hlimit : s.currentLimit ≠ maxValue)
    (hps : List.Forall₂ meaning.denotes ps added) (hfuel : ps.length < fuel)
    : ∃ s', addPacked codec fuel values s = .ok (values ++ added, s') ∧ Goes s [] s' := by
  induction hps generalizing s fuel values with
  | nil =>
    obtain ⟨fuel, rfl⟩ := Nat.exists_eq_succ_of_ne_zero (Nat.ne_of_gt hfuel)
    have hreached := h.wf.reachedLimit_eq h.holds hlimit
    refine ⟨s, ?_, h.holds, rfl, h.next⟩
    rw [addPacked, hreached, List.append_nil]
    rfl
  | @cons p v ps added hv _ ih =>
    obtain ⟨fuel, rfl⟩ := Nat.exists_eq_succ_of_ne_zero (Nat.ne_of_gt (Nat.zero_lt_of_lt hfuel))
    have hreached := h.wf.reachedLimit_eq h.holds hlimit
    rw [List.flatMap_cons] at h hreached
    have hne : ¬ p.encode ++ ps.flatMap Payload.encode = [] := by
      rw [← List.length_eq_zero_iff, List.length_append]
      have := p.length_encode_pos
      omega
    obtain ⟨s₁, hread, hgoes⟩ := meaning.reads h hv
    have hlimit₁ : s₁.currentLimit ≠ maxValue := by rwa [currentLimit_of_frame hgoes.frame]
    obtain ⟨s', hloop, hgoes'⟩ := ih (values ++ [v]) (h.of_goes hgoes) hlimit₁ (Nat.lt_of_succ_lt_succ hfuel)
    refine ⟨s', ?_, hgoes.trans hgoes'⟩
    simp only [addPacked, hreached, decide_eq_false hne, Bool.false_eq_true, if_false, add, hread, ok_bind, pure_eq]
    rw [hloop, List.append_assoc, List.singleton_append]

def Merges (meaning : codec.Meaning depth) (r : Record) (values values' : RepeatedField T) : Prop :=
  if codec.typeSupportsPacking ∧ r.payload.wireType = 2 then
    ∃ ps added h, r.payload = .bytes (ps.flatMap Payload.encode) h ∧ List.Forall₂ meaning.denotes ps added
      ∧ values' = values ++ added
  else
    ∃ v, meaning.denotes r.payload v ∧ values' = values ++ [v]

theorem isPackedRepeatedField_eq {t : UInt32}
    : codec.isPackedRepeatedField t = (codec.typeSupportsPacking && decide (t.toNat % 8 = 2)) := by
  rw [FieldCodec.isPackedRepeatedField, getTagWireType_eq]
  congr 1
  apply decide_eq_decide.mpr
  rw [← UInt32.toNat_inj, UInt32.toNat_ofNat']
  show t.toNat % 8 % 2 ^ 32 = 2 ↔ _
  omega

theorem length_le_length_flatMap {ps : List Payload} : ps.length ≤ (ps.flatMap Payload.encode).length := by
  induction ps with
  | nil => exact Nat.le_refl 0
  | cons p ps ih =>
    have hpos := p.length_encode_pos
    rw [List.flatMap_cons, List.length_append, List.length_cons]
    omega

theorem length_le_length_buffer (h : Start s depth bs) : bs.length ≤ s.buffer.length := by
  have hholds : s.Holds (bs ++ []) := by
    rw [List.append_nil]
    exact h.holds
  have hbounds := hholds.append_bounds h.wf
  omega

theorem addEntriesFrom_packed (meaning : codec.Meaning depth) {ps : List Payload} {bs : List UInt8}
    (hlength : (ps.flatMap Payload.encode).length < 2 ^ 31)
    (h : Start s depth ((Payload.bytes (ps.flatMap Payload.encode) hlength).encode ++ bs))
    (hpacked : codec.isPackedRepeatedField s.lastTag = true) (hps : List.Forall₂ meaning.denotes ps added)
    : ∃ s', addEntriesFrom values s codec = .ok (values ++ added, s') ∧ Goes s bs s' := by
  have hholds := h.holds
  rw [Payload.encode, List.append_assoc] at hholds
  obtain ⟨length, hread, hlength'⟩ := hholds.readLength hlength
  have hs₁ := hholds.advance
  have hwf₁ : (s.advance (Varint.write (ps.flatMap Payload.encode).length).length).WF := h.wf.of_frame rfl
  simp only [addEntriesFrom, hpacked, if_true, hread, ok_bind]
  split
  case isTrue hpos =>
    have hstart : Start ((s.advance _).limited _) depth (ps.flatMap Payload.encode) :=
      ⟨hs₁.limited, hs₁.wf_limited hwf₁, h.next, h.depth⟩
    have hfuel : ps.length < ((s.advance (Varint.write (ps.flatMap Payload.encode).length).length).limited
        (ps.flatMap Payload.encode).length).buffer.length + 1 :=
      Nat.lt_succ_of_le (Nat.le_trans length_le_length_flatMap (length_le_length_buffer hstart))
    obtain ⟨s₂, hloop, hgoes⟩ := addPacked_eq meaning values hstart (hs₁.limited_ne hwf₁) hps hfuel
    obtain ⟨hholds', hframe⟩ := hs₁.popLimit hwf₁ hgoes.frame hgoes.holds
    refine ⟨_, ?_, hholds', hframe, hasNextTag_popLimit.trans hgoes.next⟩
    rw [hlength', hs₁.pushLimit hwf₁, ok_bind]
    simp only [hloop, ok_bind]
    rfl
  case isFalse hpos =>
    have hnil : ps.flatMap Payload.encode = [] := by
      rw [Int32.lt_iff_toInt_lt, hlength'] at hpos
      apply List.length_eq_zero_iff.mp
      have : ¬ (0 : Int) < (ps.flatMap Payload.encode).length := hpos
      omega
    have hps' : ps = [] := by
      have hle : ps.length ≤ _ := length_le_length_flatMap
      rw [hnil] at hle
      exact List.length_eq_zero_iff.mp (Nat.le_zero.mp hle)
    subst hps'
    cases hps
    rw [List.append_nil]
    exact ⟨_, rfl, hs₁, rfl, h.next⟩

end RepeatedField

namespace Field

theorem values_reads {codec : FieldCodec T} (meaning : codec.Meaning depth) {tags : List UInt32} {r : Record}
    {rs : List Record} {vs vs' : RepeatedField T} (h : Start s depth (r.payload.encode ++ encodes rs))
    (hlast : s.lastTag = .ofNat r.tag) (hr : RepeatedField.Merges meaning r vs vs')
    : ∃ rs₁ rs₂, rs = rs₁ ++ rs₂ ∧ (∀ r' ∈ rs₁, r'.tag = r.tag) ∧ ∀ {vs''},
        Merged (RepeatedField.Merges meaning) rs₁ vs' vs'' →
        ∃ s', (values tags codec).mergeFrom vs s = .ok (vs'', s') ∧ s'.Ready (encodes rs₂)
          ∧ (rs₂ ≠ [] ∨ s.currentLimit ≠ maxValue → s'.frame = s.frame) := by
  have hpacked : codec.isPackedRepeatedField s.lastTag
      = decide (codec.typeSupportsPacking = true ∧ r.payload.wireType = 2) := by
    rw [RepeatedField.isPackedRepeatedField_eq, hlast, toNat_ofNat_tag r.tag_lt, r.tag_mod, Bool.decide_and,
      Bool.decide_eq_true]
  by_cases hboth : codec.typeSupportsPacking = true ∧ r.payload.wireType = 2
  . rw [RepeatedField.Merges, if_pos hboth] at hr
    rw [decide_eq_true hboth] at hpacked
    obtain ⟨ps, added, hlength, hpayload, hps, rfl⟩ := hr
    rw [hpayload] at h
    exact reads_one (RepeatedField.addEntriesFrom_packed meaning hlength h hpacked hps)
  . rw [RepeatedField.Merges, if_neg hboth] at hr
    rw [decide_eq_false hboth] at hpacked
    refine ⟨rs.takeWhile fun r' => r'.tag = r.tag, rs.dropWhile fun r' => r'.tag = r.tag,
      List.takeWhile_append_dropWhile.symm, ?_, ?_⟩
    . intro r' hr'
      simpa using List.mem_takeWhile_imp hr'
    . intro vs'' hm
      have hsame : ∀ r' ∈ rs.takeWhile fun r' => r'.tag = r.tag, ∀ vs vs', RepeatedField.Merges meaning r' vs vs' →
          ∃ v, meaning.denotes r'.payload v ∧ vs' = vs ++ [v] := by
        intro r' hr' vs vs' hvs
        have htag : r'.tag = r.tag := by simpa using List.mem_takeWhile_imp hr'
        rwa [RepeatedField.Merges, ← r'.tag_mod, htag, r.tag_mod, if_neg hboth] at hvs
      have hfuel : rs.length < s.buffer.length + 1 := by
        have hle := RepeatedField.length_le_length_buffer h
        have hle' : rs.length ≤ _ := length_le_length_encodes
        rw [List.length_append] at hle
        omega
      have hsteps := RepeatedField.steps_add meaning
      obtain ⟨s', hloop, hready, hframe⟩ := hsteps.doWhileTag h hr (hm.congr hsame) hfuel
      refine ⟨s', ?_, hready, hframe⟩
      simp only [values, RepeatedField.addEntriesFrom, hpacked, Bool.false_eq_true, if_false]
      rw [hlast]
      exact hloop

end Field

end WzGame.Protobuf
