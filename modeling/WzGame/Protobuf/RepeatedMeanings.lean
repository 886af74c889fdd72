import WzGame.Protobuf.FieldMeanings

/-!
This module contains how repeated fields and maps are written, and with it what they mean.
-/

namespace WzGame.Protobuf

open CodedInputStream CodedOutputStream Wire

variable {T K V : Type} {s s' : CodedInputStream} {bs : List UInt8} {depth : Nat} {codec : FieldCodec T}
  {vs : RepeatedField T}

theorem put_bind (f g : CodedOutputStream → Except Exception CodedOutputStream) (bs bs' : List UInt8)
    (hf : ∀ o, f o = o.put bs) (hg : ∀ o, g o = o.put bs') (o : CodedOutputStream)
    : (f o >>= g) = o.put (bs ++ bs') := by
  rw [put_append, hf]
  congr 1
  funext o
  exact hg o

theorem FieldCodec.Meaning.written_all (meaning : codec.Meaning depth)
    (hsize : (vs.map codec.valueSizeCalculator).sum < 2 ^ 31)
    : ∃ ps, List.Forall₂ meaning.denotes ps vs
        ∧ (vs.map codec.valueSizeCalculator).sum = (ps.flatMap Payload.encode).length
        ∧ ∀ o, vs.foldlM codec.valueWriter o = o.put (ps.flatMap Payload.encode) := by
  induction vs with
  | nil => exact ⟨[], .nil, rfl, fun o => put_nil.symm⟩
  | cons v vs ih =>
    rw [List.map_cons, List.sum_cons] at hsize
    obtain ⟨p, hv, -, hlength, hwrite⟩ := meaning.written (v := v) (by omega)
    obtain ⟨ps, hvs, hlength', hwrite'⟩ := ih (by omega)
    refine ⟨p :: ps, .cons hv hvs, ?_, fun o => ?_⟩
    . rw [List.map_cons, List.sum_cons, List.flatMap_cons, List.length_append, hlength, hlength']
    . rw [List.foldlM_cons, List.flatMap_cons]
      exact put_bind (codec.valueWriter · v) _ _ _ hwrite hwrite' o

theorem FieldCodec.Meaning.written_tagged (meaning : codec.Meaning depth)
    (hpacking : codec.typeSupportsPacking = false) (hwire : codec.tag.toNat % 8 = meaning.wireType)
    (hmin : 8 ≤ codec.tag.toNat)
    (hsize : vs.length * computeRawVarint32Size codec.tag + (vs.map codec.valueSizeCalculator).sum < 2 ^ 31)
    : ∃ rs, (∀ r ∈ rs, UInt32.ofNat r.tag = codec.tag)
        ∧ vs.length * computeRawVarint32Size codec.tag + (vs.map codec.valueSizeCalculator).sum = (encodes rs).length
        ∧ (∀ o, vs.foldlM (fun o v => o.writeTag codec.tag >>= (codec.valueWriter · v)) o = o.put (encodes rs))
        ∧ ∀ acc, Merged (RepeatedField.Merges meaning) rs acc (acc ++ vs) := by
  induction vs with
  | nil => exact ⟨[], by simp, by simp, fun o => put_nil.symm, fun acc => by rw [List.append_nil]; exact .nil⟩
  | cons v vs ih =>
    rw [List.length_cons, List.map_cons, List.sum_cons, Nat.succ_mul] at hsize
    obtain ⟨p, hv, htype, hlength, hwrite⟩ := meaning.written (v := v) (by omega)
    obtain ⟨rs, htags, hlength', hwrite', hmerged⟩ := ih (by omega)
    rw [← htype] at hwire
    have hsingle : encodes [Record.ofTag codec.tag.toNat p hmin codec.tag.toNat_lt] = _ := Field.encodes_ofTag hwire
    have happend : encodes (Record.ofTag codec.tag.toNat p hmin codec.tag.toNat_lt :: rs)
        = Varint.write codec.tag.toNat ++ p.encode ++ encodes rs := by
      rw [← hsingle, ← encodes_append, List.singleton_append]
    refine ⟨.ofTag codec.tag.toNat p hmin codec.tag.toNat_lt :: rs, ?_, ?_, fun o => ?_, fun acc => ?_⟩
    . simp only [List.mem_cons, forall_eq_or_imp]
      exact ⟨Field.tag_mem hwire, htags⟩
    . rw [happend, List.length_append, List.length_append, List.length_cons, List.map_cons, List.sum_cons,
        Nat.succ_mul, ← hlength', ← hlength, computeRawVarint32Size_eq]
      omega
    . rw [happend, List.foldlM_cons]
      refine put_bind (fun o => o.writeTag codec.tag >>= (codec.valueWriter · v)) _ _ _ (fun o => ?_) hwrite' o
      exact put_bind (·.writeTag codec.tag) _ _ _ (fun o => writeTag_eq) hwrite o
    . have hrest := hmerged (acc ++ [v])
      rw [List.append_assoc, List.singleton_append] at hrest
      refine .cons ?_ hrest
      rw [RepeatedField.Merges, hpacking, if_neg (by simp)]
      exact ⟨v, hv, rfl⟩

namespace Field

def packedMeaning (meaning : codec.Meaning depth) {tags : List UInt32} (hpacking : codec.typeSupportsPacking = true)
    (hwire : codec.tag.toNat % 8 = 2) (hmin : 8 ≤ codec.tag.toNat) (hmem : codec.tag ∈ tags)
    : (values tags codec).Meaning depth where
  merges := RepeatedField.Merges meaning
  copy vs acc := acc ++ vs
  reads h hlast _ hr := values_reads meaning h hlast hr
  written := by
    intro vs hsize
    have hpacked : codec.packedRepeatedField = true := by
      rw [FieldCodec.packedRepeatedField, RepeatedField.isPackedRepeatedField_eq, hpacking, hwire]
      rfl
    simp only [values, RepeatedField.calculateSize, RepeatedField.writeTo, hpacked, if_true,
      RepeatedField.calculatePackedDataSize] at hsize ⊢
    split
    case isTrue hnil =>
      obtain rfl := List.length_eq_zero_iff.mp hnil
      exact ⟨[], by simp, rfl, fun o => put_nil.symm, fun acc => by rw [List.append_nil]; exact .nil⟩
    case isFalse hne =>
      rw [if_neg hne] at hsize
      have hsum : (vs.map codec.valueSizeCalculator).sum < 2 ^ 31 := by omega
      obtain ⟨ps, hps, hlength, hwrite⟩ := meaning.written_all hsum
      have hshort : (ps.flatMap Payload.encode).length < 2 ^ 31 := by omega
      have hshort' : (ps.flatMap Payload.encode).length < 2 ^ 32 := by omega
      replace hwire : codec.tag.toNat % 8 = (Payload.bytes _ hshort).wireType := hwire
      refine ⟨[.ofTag codec.tag.toNat (.bytes _ hshort) hmin codec.tag.toNat_lt], by simpa [tag_mem hwire], ?_,
        fun o => ?_, fun acc => .single ?_⟩
      . rw [encodes_ofTag hwire, computeRawVarint32Size_eq, hlength, computeLengthSize_eq hshort', Payload.encode,
          List.length_append, List.length_append, Nat.add_assoc]
      . rw [encodes_ofTag hwire, hlength]
        refine put_bind (·.writeTag codec.tag) _ _ _ (fun o => writeTag_eq) (fun o => ?_) o
        exact put_bind (·.writeRawVarint32 _) _ _ _ (fun o => writeLength_eq hshort') hwrite o
      . rw [RepeatedField.Merges, if_pos ⟨hpacking, rfl⟩]
        exact ⟨ps, vs, hshort, rfl, hps, rfl⟩

def taggedMeaning (meaning : codec.Meaning depth) {tags : List UInt32} (hpacking : codec.typeSupportsPacking = false)
    (hwire : codec.tag.toNat % 8 = meaning.wireType) (hmin : 8 ≤ codec.tag.toNat) (hmem : codec.tag ∈ tags)
    : (values tags codec).Meaning depth where
  merges := RepeatedField.Merges meaning
  copy vs acc := acc ++ vs
  reads h hlast _ hr := values_reads meaning h hlast hr
  written := by
    intro vs hsize
    have hpacked : codec.packedRepeatedField = false := by
      rw [FieldCodec.packedRepeatedField, FieldCodec.isPackedRepeatedField, hpacking, Bool.false_and]
    simp only [values, RepeatedField.calculateSize, RepeatedField.writeTo, hpacked, Bool.false_eq_true,
      if_false] at hsize ⊢
    split
    case isTrue hnil =>
      obtain rfl := List.length_eq_zero_iff.mp hnil
      exact ⟨[], by simp, rfl, fun o => put_nil.symm, fun acc => by rw [List.append_nil]; exact .nil⟩
    case isFalse hne =>
      rw [if_neg hne] at hsize
      obtain ⟨rs, htags, hlength, hwrite, hmerged⟩ := meaning.written_tagged hpacking hwire hmin hsize
      exact ⟨rs, fun r hr => by rw [htags r hr]; exact hmem, hlength, hwrite, hmerged⟩

end Field

namespace MapField

variable [DecidableEq K] [DecidableEq V] {codec : Codec K V}

def Merges (meaning : codec.messageAdapter.Meaning depth) (r : Record) (map map' : MapField K V) : Prop :=
  ∃ rs h entry, r.payload = .bytes (encodes rs) h ∧ Merged meaning.merges rs codec.reset entry
    ∧ map' = map.set entry.1 entry.2

def setAll (entries : List (K × V)) (map : MapField K V) : MapField K V :=
  entries.foldl (fun map entry => map.set entry.1 entry.2) map

theorem steps_addEntry (meaning : codec.messageAdapter.Meaning depth)
    : Steps (addEntry codec) (Merges meaning) (depth + 1) := by
  rintro s r map _ bs h ⟨rs, hlength, entry, hpayload, hm, rfl⟩
  rw [hpayload] at h
  obtain ⟨s', hread, hgoes⟩ := meaning.readMessage h hm
  refine ⟨s', ?_, hgoes⟩
  simp only [addEntry, hread, ok_bind]
  rfl

theorem written_entries (meaning : codec.messageAdapter.Meaning depth)
    (hreset : ∀ entry, meaning.copy entry codec.reset = entry) (hwire : codec.mapTag.toNat % 8 = 2)
    (hmin : 8 ≤ codec.mapTag.toNat) {entries : List (K × V)}
    (hsize : (entries.map fun entry =>
      computeRawVarint32Size codec.mapTag + computeMessageSize codec.messageAdapter entry).sum < 2 ^ 31)
    : ∃ rs, (∀ r ∈ rs, UInt32.ofNat r.tag = codec.mapTag)
        ∧ (entries.map fun entry =>
            computeRawVarint32Size codec.mapTag + computeMessageSize codec.messageAdapter entry).sum
          = (encodes rs).length
        ∧ (∀ o : CodedOutputStream,
            entries.foldlM (fun o entry => o.writeTag codec.mapTag >>= (·.writeMessage codec.messageAdapter entry)) o
              = o.put (encodes rs))
        ∧ ∀ acc, Merged (Merges meaning) rs acc (setAll entries acc) := by
  induction entries with
  | nil => exact ⟨[], by simp, rfl, fun o => put_nil.symm, fun acc => .nil⟩
  | cons entry entries ih =>
    rw [List.map_cons, List.sum_cons] at hsize
    obtain ⟨content, hshort, hlength, hwrite, hmerged⟩ := meaning.writtenMessage (m := entry) (by omega)
    obtain ⟨rs, htags, hlength', hwrite', hmerged'⟩ := ih (by omega)
    replace hwire : codec.mapTag.toNat % 8 = (Payload.bytes _ hshort).wireType := hwire
    have hsingle : encodes [Record.ofTag codec.mapTag.toNat (.bytes _ hshort) hmin codec.mapTag.toNat_lt] = _ :=
      Field.encodes_ofTag hwire
    have happend : encodes (Record.ofTag codec.mapTag.toNat (.bytes _ hshort) hmin codec.mapTag.toNat_lt :: rs)
        = Varint.write codec.mapTag.toNat ++ (Payload.bytes _ hshort).encode ++ encodes rs := by
      rw [← hsingle, ← encodes_append, List.singleton_append]
    refine ⟨.ofTag codec.mapTag.toNat (.bytes _ hshort) hmin codec.mapTag.toNat_lt :: rs, ?_, ?_, fun o => ?_,
      fun acc => ?_⟩
    . simp only [List.mem_cons, forall_eq_or_imp]
      exact ⟨Field.tag_mem hwire, htags⟩
    . rw [happend, List.length_append, List.length_append, List.map_cons, List.sum_cons, ← hlength', ← hlength,
        computeRawVarint32Size_eq]
    . rw [happend, List.foldlM_cons]
      refine put_bind (fun o : CodedOutputStream =>
        o.writeTag codec.mapTag >>= (·.writeMessage codec.messageAdapter entry)) _ _ _ (fun o => ?_) hwrite' o
      exact put_bind (·.writeTag codec.mapTag) _ _ _ (fun o => writeTag_eq) hwrite o
    . refine .cons ⟨content, hshort, entry, rfl, ?_, rfl⟩ (hmerged' _)
      have hentry := hmerged codec.reset
      rwa [hreset] at hentry

end MapField

namespace Field

def entriesMeaning [DecidableEq K] [DecidableEq V] {codec : MapField.Codec K V}
    (meaning : codec.messageAdapter.Meaning depth) (hreset : ∀ entry, meaning.copy entry codec.reset = entry)
    (hwire : codec.mapTag.toNat % 8 = 2) (hmin : 8 ≤ codec.mapTag.toNat) : (entries codec).Meaning (depth + 1) where
  merges := MapField.Merges meaning
  copy map acc := MapField.setAll map.list acc
  reads := by
    intro s r rs map map' h hlast htag hr
    refine ⟨rs.takeWhile fun r' => r'.tag = r.tag, rs.dropWhile fun r' => r'.tag = r.tag,
      List.takeWhile_append_dropWhile.symm, fun r' hr' => by simpa using List.mem_takeWhile_imp hr', ?_⟩
    intro map'' hm
    have hfuel : rs.length < s.buffer.length + 1 := by
      have hle := RepeatedField.length_le_length_buffer h
      have hle' : rs.length ≤ _ := length_le_length_encodes
      rw [List.length_append] at hle
      omega
    have hsteps := MapField.steps_addEntry meaning
    obtain ⟨s', hloop, hready, hframe⟩ := hsteps.doWhileTag h hr hm hfuel
    rw [List.mem_singleton.mp htag] at hloop
    exact ⟨s', hloop, hready, hframe⟩
  written := by
    intro map hsize
    simp only [entries, MapField.calculateSize, MapField.writeTo] at hsize ⊢
    have hsum : (if map.list.length = 0 then 0 else (map.list.map fun entry =>
          computeRawVarint32Size codec.mapTag + computeMessageSize codec.messageAdapter entry).sum)
        = (map.list.map fun entry =>
          computeRawVarint32Size codec.mapTag + computeMessageSize codec.messageAdapter entry).sum := by
      split
      case isTrue hnil => rw [List.length_eq_zero_iff.mp hnil, List.map_nil, List.sum_nil]
      case isFalse => rfl
    rw [hsum] at hsize ⊢
    obtain ⟨rs, htags, hlength, hwrite, hmerged⟩ := MapField.written_entries meaning hreset hwire hmin hsize
    exact ⟨rs, fun r hr => List.mem_singleton.mpr (htags r hr), hlength, hwrite, hmerged⟩

end Field

end WzGame.Protobuf
