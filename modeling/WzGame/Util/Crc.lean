import Mathlib.Data.List.Basic

/-!
This module contains cyclic redundancy checks of any width, bit by bit and without reflection, and the law
behind their byte tables.
-/

namespace Crc

variable {w : Nat} (poly : BitVec w)

def feed (crc : BitVec w) (bit : Bool) : BitVec w :=
  if crc.msb ^^ bit then (crc <<< 1) ^^^ poly else crc <<< 1

def bits {n : Nat} (b : BitVec n) : List Bool := (List.range n).map b.getMsbD

def feedWord {n : Nat} (crc : BitVec w) (b : BitVec n) : BitVec w := (bits b).foldl (feed poly) crc

def crc (init : BitVec w) (bytes : List UInt8) : BitVec w :=
  bytes.foldl (fun crc b => feedWord poly crc b.toBitVec) init

theorem feed_xor (x y : BitVec w) (a b : Bool)
    : feed poly (x ^^^ y) (a ^^ b) = feed poly x a ^^^ feed poly y b := by
  have hbit : ((x ^^^ y).msb ^^ (a ^^ b)) = ((x.msb ^^ a) ^^ (y.msb ^^ b)) := by
    rw [BitVec.msb_xor, Bool.xor_assoc, Bool.xor_assoc, Bool.xor_left_comm y.msb]
  simp only [feed, hbit, BitVec.shiftLeft_xor_distrib]
  cases x.msb ^^ a <;> cases y.msb ^^ b <;> simp only [Bool.xor_false, Bool.xor_true, Bool.not_true,
    Bool.not_false, Bool.false_eq_true, if_true, if_false]
  . ac_rfl
  . ac_rfl
  . rw [BitVec.xor_assoc (x <<< 1), BitVec.xor_comm poly, BitVec.xor_assoc (y <<< 1), BitVec.xor_self,
      BitVec.xor_zero]

theorem foldl_feed_xor {ι : Type} (is : List ι) (f g : ι → Bool) (x y : BitVec w)
    : (is.map fun i => f i ^^ g i).foldl (feed poly) (x ^^^ y)
        =
      (is.map f).foldl (feed poly) x ^^^ (is.map g).foldl (feed poly) y := by
  induction is generalizing x y with
  | nil => rfl
  | cons i is ih =>
    simp only [List.map_cons, List.foldl_cons]
    rw [feed_xor, ih]

theorem feedWord_xor {n : Nat} (x y : BitVec w) (a b : BitVec n)
    : feedWord poly (x ^^^ y) (a ^^^ b) = feedWord poly x a ^^^ feedWord poly y b := by
  rw [feedWord, feedWord, feedWord, bits, bits, bits, ← foldl_feed_xor]
  congr 1
  apply List.map_congr_left
  intro i _
  exact BitVec.getMsbD_xor

theorem foldl_feed_getMsbD (x : BitVec w) (n : Nat)
    : ((List.range n).map x.getMsbD).foldl (feed poly) x = x <<< n := by
  induction n with
  | zero => simp
  | succ n ih =>
    have hmsb : (x <<< n).msb = x.getMsbD n := by
      rw [BitVec.msb_shiftLeft]
    rw [List.range_succ, List.map_append, List.foldl_append, ih]
    simp [feed, hmsb, BitVec.shiftLeft_add]

theorem feedWord_eq {n : Nat} (x : BitVec w) (top b : BitVec n) (htop : ∀ i < n, top.getMsbD i = x.getMsbD i)
    : feedWord poly x b = x <<< n ^^^ feedWord poly 0#w (top ^^^ b) := by
  have hmove : feedWord poly x top = x <<< n := by
    rw [← foldl_feed_getMsbD poly x n, feedWord, bits]
    congr 1
    apply List.map_congr_left
    intro i hi
    exact htop i (List.mem_range.mp hi)
  calc
    feedWord poly x b = feedWord poly (x ^^^ 0#w) (top ^^^ (top ^^^ b)) := by
      rw [BitVec.xor_zero, ← BitVec.xor_assoc, BitVec.xor_self, BitVec.zero_xor]
    _ = x <<< n ^^^ feedWord poly 0#w (top ^^^ b) := by
      rw [feedWord_xor, hmove]

theorem crc_append (init : BitVec w) (bs bs' : List UInt8)
    : crc poly init (bs ++ bs') = crc poly (crc poly init bs) bs' := List.foldl_append

end Crc
