import WzGame.Protobuf.RepeatedMeanings

/-!
This module contains that the loop over the tags of a message merges its records one after another, and that a message
which has been written is read again.
-/

namespace WzGame.Protobuf

open CodedInputStream CodedOutputStream Wire

inductive Meanings {M : Type} (depth : Nat) : Fields M → Type where
  | nil : Meanings depth []
  | cons {field : Field M} {fields : Fields M} (meaning : field.Meaning depth) (meanings : Meanings depth fields)
    (disjoint : ∀ t ∈ field.tags, ∀ f ∈ fields, t ∉ f.tags := by simp) : Meanings depth (field :: fields)

namespace Meanings

variable {M : Type} {fields : Fields M} {s s' s₀ : CodedInputStream} {depth fuel : Nat} {r : Record} {rs : List Record}
  {m m' : M}

def merges : {fields : Fields M} → Meanings depth fields → Record → M → M → Prop
  | _, nil, _, m, m' => m' = m
  | field :: _, cons meaning meanings _, r, m, m' =>
    if .ofNat r.tag ∈ field.tags then meaning.merges r m m' else meanings.merges r m m'

-- `MergeFrom(other)`
def copy : {fields : Fields M} → Meanings depth fields → M → M → M
  | _, nil, _, acc => acc
  | _, cons meaning meanings _, m, acc => meanings.copy m (meaning.copy m acc)

def Known (fields : Fields M) (r : Record) : Prop := ∃ field ∈ fields, UInt32.ofNat r.tag ∈ field.tags

instance : DecidablePred (Known fields) := fun r =>
  inferInstanceAs (Decidable (∃ field ∈ fields, UInt32.ofNat r.tag ∈ field.tags))

theorem merges_of_find?_eq_some {field : Field M} (meanings : Meanings depth fields)
    (h : fields.find? (·.tags.contains (.ofNat r.tag)) = some field)
    : ∃ meaning : field.Meaning depth, ∀ r' : Record, r'.tag = r.tag → meanings.merges r' = meaning.merges r' := by
  induction meanings with
  | nil => cases h
  | @cons first fields meaning meanings _ ih =>
    by_cases hmem : UInt32.ofNat r.tag ∈ first.tags
    . rw [List.find?_cons_of_pos (by simpa using hmem)] at h
      cases h
      refine ⟨meaning, fun r' htag => ?_⟩
      funext m m'
      rw [merges, htag, if_pos hmem]
    . rw [List.find?_cons_of_neg (by simpa using hmem)] at h
      obtain ⟨meaning', hsame⟩ := ih h
      refine ⟨meaning', fun r' htag => ?_⟩
      rw [← hsame r' htag]
      funext m m'
      rw [merges, htag, if_neg hmem]

theorem merges_of_not_known (meanings : Meanings depth fields) (h : ¬ Known fields r)
    : meanings.merges r m m' ↔ m' = m := by
  induction meanings with
  | nil => rfl
  | cons meaning meanings _ ih =>
    rw [merges, if_neg fun hmem => h ⟨_, List.mem_cons_self, hmem⟩]
    exact ih fun ⟨field, hfield, hmem⟩ => h ⟨field, List.mem_cons_of_mem _ hfield, hmem⟩

theorem merged_filter (meanings : Meanings depth fields)
    : Merged meanings.merges (rs.filter (Known fields)) m m' ↔ Merged meanings.merges rs m m' := by
  induction rs generalizing m with
  | nil => rfl
  | cons r rs ih =>
    by_cases hknown : Known fields r
    . rw [List.filter_cons_of_pos (by simpa using hknown)]
      constructor
      . rintro (_ | ⟨hr, hrs⟩)
        exact .cons hr (ih.mp hrs)
      . rintro (_ | ⟨hr, hrs⟩)
        exact .cons hr (ih.mpr hrs)
    . rw [List.filter_cons_of_neg (by simpa using hknown), ih]
      constructor
      . exact fun hrs => .cons ((meanings.merges_of_not_known hknown).mpr rfl) hrs
      . rintro (_ | ⟨hr, hrs⟩)
        rwa [(meanings.merges_of_not_known hknown).mp hr] at hrs

theorem not_known_of_find?_eq_none (h : fields.find? (·.tags.contains (.ofNat r.tag)) = none) : ¬ Known fields r := by
  rintro ⟨field, hfield, hmem⟩
  exact List.find?_eq_none.mp h field hfield (by simpa using hmem)

theorem mergeAll_eq (meanings : Meanings depth fields) (h : s.Ready (encodes rs)) (hwf : s₀.WF)
    (hdepth : s₀.recursionDepth + depth ≤ recursionLimit)
    (hframe : rs ≠ [] ∨ s₀.currentLimit ≠ maxValue → s.frame = s₀.frame) (hm : Merged meanings.merges rs m m')
    (hfuel : rs.length < fuel)
    : ∃ s', Field.mergeAll fields fuel m s = .ok (m', s') ∧ s'.lastTag = 0 ∧ s'.hasNextTag = false ∧ s'.Holds []
        ∧ (s₀.currentLimit ≠ maxValue → s'.frame = s₀.frame) := by
  induction hlength : rs.length using Nat.strongRecOn generalizing s rs m fuel with
  | _ length ih =>
    obtain ⟨fuel, rfl⟩ := Nat.exists_eq_succ_of_ne_zero (Nat.ne_of_gt (Nat.zero_lt_of_lt hfuel))
    cases hm with
    | nil =>
      obtain ⟨s₁, hread⟩ := h.readTag_nil
      refine ⟨s₁, ?_, hread.last, hread.next, hread.holds, fun hlimit => ?_⟩
      . simp only [Field.mergeAll, hread.read, ok_bind, if_true]
        rfl
      . have hsame := hframe (.inr hlimit)
        refine (hread.frame (.inr ⟨hwf.of_frame hsame, ?_⟩)).trans hsame
        rwa [currentLimit_of_frame hsame]
    | @cons r rs _ m₁ _ hr hrs =>
      have htag : 0 < r.tag := Nat.lt_of_lt_of_le (by decide) r.le_tag
      have hne := ofNat_tag_ne_zero r.tag_lt htag
      rw [encodes_cons] at h
      obtain ⟨s₁, hread⟩ := h.readTag htag r.tag_lt
      have hsame : s₁.frame = s₀.frame := (hread.frame (.inl hne)).trans (hframe (.inl (List.cons_ne_nil r rs)))
      have hdepth₁ : s₁.recursionDepth = s₀.recursionDepth := congrArg (·.recursionDepth) hsame
      have hstart : Start s₁ depth (r.payload.encode ++ encodes rs) :=
        ⟨hread.holds, hwf.of_frame hsame, hread.next, hdepth₁ ▸ hdepth⟩
      rw [List.length_cons] at hlength hfuel
      cases hfind : fields.find? (·.tags.contains (.ofNat r.tag)) with
      | none =>
        obtain rfl := (meanings.merges_of_not_known (not_known_of_find?_eq_none hfind)).mp hr
        obtain ⟨s₂, hskip, hholds, hframe₂, hnext₂⟩
            : ∃ s₂, skipLastField (3 * s₁.buffer.length + 3) s₁ = .ok s₂ ∧ s₂.Holds (encodes rs) ∧ s₂.frame = s₁.frame
                ∧ s₂.hasNextTag = s₁.hasNextTag := hread.holds.skipLastField hstart.wf hread.last
        obtain ⟨s', hloop, hend⟩ := ih rs.length (by omega) (.here (hnext₂.trans hread.next) hholds)
          (fun _ => hframe₂.trans hsame) hrs (Nat.lt_of_succ_lt_succ hfuel) rfl
        refine ⟨s', ?_, hend⟩
        simp only [Field.mergeAll, hread.read, ok_bind, if_neg hne, hfind, hskip]
        exact hloop
      | some field =>
        obtain ⟨meaning, hmeaning⟩ := meanings.merges_of_find?_eq_some hfind
        have hmem : UInt32.ofNat r.tag ∈ field.tags := by simpa using List.find?_some hfind
        rw [hmeaning r rfl] at hr
        obtain ⟨rs₁, rs₂, rfl, htags, hmerge⟩ := meaning.reads hstart hread.last hmem hr
        obtain ⟨m₂, hrs₁, hrs₂⟩ := hrs.of_append
        obtain ⟨s₂, hmerge, hready, hframe₂⟩ := hmerge
          (hrs₁.congr fun r' hr' m m' => (congrFun (congrFun (hmeaning r' (htags r' hr')) m) m').mp)
        rw [List.length_append] at hlength hfuel
        rw [currentLimit_of_frame hsame] at hframe₂
        have hfuel₂ : rs₂.length < fuel := by omega
        obtain ⟨s', hloop, hend⟩ := ih rs₂.length (by omega) hready (fun h => (hframe₂ h).trans hsame) hrs₂ hfuel₂ rfl
        refine ⟨s', ?_, hend⟩
        simp only [Field.mergeAll, hread.read, ok_bind, if_neg hne, hfind, hmerge]
        exact hloop

theorem written (meanings : Meanings depth fields) (hsize : (Field.message fields).calculateSize m < 2 ^ 31)
    : ∃ rs, (∀ r ∈ rs, Known fields r) ∧ (Field.message fields).calculateSize m = (encodes rs).length
        ∧ (∀ o, (Field.message fields).writeTo m o = o.put (encodes rs))
        ∧ ∀ acc, Merged meanings.merges rs acc (meanings.copy m acc) := by
  induction meanings with
  | nil => exact ⟨[], by simp, rfl, fun o => put_nil.symm, fun acc => .nil⟩
  | @cons field fields meaning meanings hdisjoint ih =>
    have hsum : (Field.message (field :: fields)).calculateSize m
        = field.calculateSize m + (Field.message fields).calculateSize m := List.sum_cons
    rw [hsum] at hsize ⊢
    obtain ⟨rs₁, htags, hlength₁, hwrite₁, hmerged₁⟩ := meaning.written (m := m) (by omega)
    obtain ⟨rs₂, hknown, hlength₂, hwrite₂, hmerged₂⟩ := ih (by omega)
    refine ⟨rs₁ ++ rs₂, ?_, ?_, fun o => ?_, fun acc => ?_⟩
    . intro r hr
      rcases List.mem_append.mp hr with hr | hr
      . exact ⟨field, List.mem_cons_self, htags r hr⟩
      . obtain ⟨f, hf, hmem⟩ := hknown r hr
        exact ⟨f, List.mem_cons_of_mem _ hf, hmem⟩
    . rw [hlength₁, hlength₂, encodes_append, List.length_append]
    . rw [encodes_append]
      exact put_bind (field.writeTo m) ((Field.message fields).writeTo m) _ _ hwrite₁ hwrite₂ o
    . refine ((hmerged₁ acc).congr ?_).append ((hmerged₂ _).congr ?_)
      . intro r hr m m' h
        rwa [merges, if_pos (htags r hr)]
      . intro r hr m m' h
        obtain ⟨f, hf, hmem⟩ := hknown r hr
        rwa [merges, if_neg fun h => hdisjoint _ h f hf hmem]

def message (meanings : Meanings depth fields) : (Field.message fields).Meaning depth where
  merges := meanings.merges
  copy := meanings.copy
  reads := by
    intro s rs m m' h hm
    have hfuel : rs.length < s.buffer.length + 1 :=
      Nat.lt_succ_of_le (Nat.le_trans length_le_length_encodes (RepeatedField.length_le_length_buffer h))
    exact meanings.mergeAll_eq (.here h.next h.holds) h.wf h.depth (fun _ => rfl) hm hfuel
  written hsize := by
    obtain ⟨rs, -, hrest⟩ := meanings.written hsize
    exact ⟨rs, hrest⟩

theorem mergeFromData_encodes (meanings : Meanings depth fields) (hdepth : depth ≤ recursionLimit)
    (hlength : (encodes rs).length < maxValue) (hm : Merged meanings.merges rs m m')
    : (Field.message fields).mergeFromData m (encodes rs) = .ok m' := by
  have hstart : Start (.new (encodes rs)) depth (encodes rs) :=
    ⟨holds_new, wf_new hlength, rfl, by simpa [CodedInputStream.new] using hdepth⟩
  obtain ⟨s', hmerge, hlast, -⟩ := meanings.message.reads hstart hm
  rw [IMessage.mergeFromData, hmerge, ok_bind]
  simp only [checkReadEndOfStreamTag, hlast]
  rfl

theorem toByteArray_eq (meanings : Meanings depth fields) (hsize : (Field.message fields).calculateSize m < 2 ^ 31)
    : ∃ rs, (Field.message fields).toByteArray m = .ok (encodes rs) ∧ (∀ r ∈ rs, Known fields r)
        ∧ (Field.message fields).calculateSize m = (encodes rs).length
        ∧ ∀ acc, Merged meanings.merges rs acc (meanings.copy m acc) := by
  obtain ⟨rs, hknown, hlength, hwrite, hmerged⟩ := meanings.written hsize
  refine ⟨rs, ?_, hknown, hlength, hmerged⟩
  have hput : (CodedOutputStream.new (encodes rs).length).put (encodes rs)
      = .ok ⟨encodes rs, (encodes rs).length, Nat.le_refl _⟩ := by
    rw [put, dif_pos (by simp [CodedOutputStream.new, position])]
    rfl
  rw [IMessage.toByteArray, hwrite, hlength, hput, ok_bind]
  simp [checkNoSpaceLeft, position, pure_eq, ok_bind]

end Meanings

end WzGame.Protobuf
