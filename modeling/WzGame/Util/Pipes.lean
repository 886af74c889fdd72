import WzGame.Util.Framing

/-!
This module contains pipes between a sender and a receiver: the sender writes frames, their bytes are under way and
arrive in chunks, and the receiver gets the frames in the order in which they have been written.
-/

namespace Framing

variable {φ β σ : Type}

structure Pipe (β σ : Type) where
  bytes : List β
  receiver : σ

namespace Pipe

def write (s : Pipe β σ) (bytes : List β) : Pipe β σ := { s with bytes := s.bytes ++ bytes }

def arrive (feed : σ → List β → σ) (n : Nat) (s : Pipe β σ) : Pipe β σ :=
  ⟨s.bytes.drop n, feed s.receiver (s.bytes.take n)⟩

end Pipe

/--
A receiver of frames that are `good`: `At done r` says that it has got the frames of `done` and the beginning `r` of
the next one.
-/
structure Reassembles (frame : φ → List β) (good : φ → Prop) (feed : σ → List β → σ) (At : List φ → List β → σ → Prop)
    : Prop where
  frame_ne_nil : ∀ f, good f → frame f ≠ []
  feed : ∀ done r s chunk done' rest' r', (∀ f ∈ done ++ done' ++ rest', good f) → At done r s
    → Incomplete frame r (done' ++ rest') → r ++ chunk = done'.flatMap frame ++ r' → Incomplete frame r' rest'
    → At (done ++ done') r' (feed s chunk)

structure Carries (frame : φ → List β) (good : φ → Prop) (At : List φ → List β → σ → Prop) (s : Pipe β σ)
    (done queue : List φ) : Prop where
  good : ∀ f ∈ done ++ queue, good f
  exists_begin : ∃ r, At done r s.receiver ∧ Incomplete frame r queue ∧ r ++ s.bytes = queue.flatMap frame

variable {frame : φ → List β} {good : φ → Prop} {feed : σ → List β → σ} {At : List φ → List β → σ → Prop}
  {s : Pipe β σ} {done queue : List φ} {f : φ}

theorem carries_nil {receiver : σ} (h : At [] [] receiver) : Carries frame good At ⟨[], receiver⟩ [] [] :=
  ⟨nofun, [], h, rfl, rfl⟩

theorem Carries.write (R : Reassembles frame good feed At) (h : Carries frame good At s done queue) (hf : good f)
    : Carries frame good At (s.write (frame f)) done (queue ++ [f]) := by
  obtain ⟨hgood, r, hat, hr, hbytes⟩ := h
  refine ⟨?_, r, hat, ?_, ?_⟩
  . intro f' hf'
    rw [← List.append_assoc, List.mem_append, List.mem_singleton] at hf'
    rcases hf' with hf' | rfl
    . exact hgood f' hf'
    . exact hf
  . cases queue with
    | nil =>
      obtain rfl : r = [] := hr
      apply incomplete_nil
      intro f' hf'
      obtain rfl := List.mem_singleton.mp hf'
      exact R.frame_ne_nil f' hf
    | cons => exact hr
  . rw [Pipe.write, ← List.append_assoc, hbytes, List.flatMap_append, List.flatMap_singleton]

theorem Carries.arrive (R : Reassembles frame good feed At) (h : Carries frame good At s done queue) (n : Nat)
    : ∃ now later, queue = now ++ later ∧ Carries frame good At (s.arrive feed n) (done ++ now) later := by
  obtain ⟨hgood, r, hat, hr, hbytes⟩ := h
  have hsplit : r ++ s.bytes.take n ++ s.bytes.drop n = queue.flatMap frame := by
    rw [List.append_assoc, List.take_append_drop, hbytes]
  obtain ⟨now, later, r', rfl, hcut, hr'⟩ := exists_cut (hsplit ▸ List.prefix_append _ _)
  rw [← List.append_assoc] at hgood
  refine ⟨now, later, rfl, hgood, r', R.feed done r _ _ now later r' hgood hat hr hcut hr', hr', ?_⟩
  rw [hcut, List.flatMap_append, List.append_assoc, List.append_right_inj] at hsplit
  exact hsplit

theorem Carries.eq_nil (h : Carries frame good At s done queue) (hbytes : s.bytes = []) : queue = [] := by
  obtain ⟨-, r, -, hr, hsplit⟩ := h
  have hall : ([] ++ queue).flatMap frame = [].flatMap frame ++ r := by
    rw [List.nil_append, ← hsplit, hbytes, List.append_nil, List.flatMap_nil, List.nil_append]
  exact (eq_of_incomplete hr hall).1

theorem Carries.at (h : Carries frame good At s done queue) : ∃ r, At done r s.receiver :=
  h.exists_begin.imp fun _ hr => hr.1

end Framing
