import WzGame.Util.LuaTables

/-!
This module contains how the configuration tool writes lists of strings for Lua, which leaves out their last strings.
-/

namespace WzGame

open Lua

abbrev PlainString := { s : List Char // ∀ c ∈ s, c ≠ '"' ∧ c ≠ '\\' }

namespace ExcelReader

mutual

def toString : Value PlainString → List Char
  | .string s => s.val
  | .table list => '[' :: toStringAll list ++ [']']

def toStringAll : List (Value PlainString) → List Char
  | [] => []
  | e :: list => toString e ++ (if list.isEmpty then [] else [',', ' ']) ++ toStringAll list

end

def getPrimitiveStrList (list : List (Value PlainString)) : List Char :=
  let size := list.length
  '{' :: (list.zipIdx.flatMap fun (e, i) => if i ≠ size - 1 then '"' :: toString e ++ ['"', ','] else []) ++ ['}']

def enclose (list : List (Value PlainString)) (sub : Bool) (loop : List Char) : List Char :=
  match list with
  | [] => []
  | .string _ :: _ => getPrimitiveStrList list
  | .table _ :: _ => (if sub then ['{'] else "return \x7b\r\n".toList) ++ loop ++ ['}']

section

variable (writeLuaTable : PlainString → Bool → Option (List Char))

mutual

-- The text of an element. An exception of `writeLuaTable` is caught, and nothing is appended then.
def writeElement : Value PlainString → Bool → Option (List Char)
  | .string s, sub => writeLuaTable s sub
  | .table list, _ => some (enclose list true (writeElements list true))

def writeElements : List (Value PlainString) → Bool → List Char
  | [], _ => []
  | e :: list, sub =>
    (match writeElement e sub with
      | none => []
      | some text => text ++ (if list.isEmpty then [] else [',']) ++ (if sub then [] else ['\n']))
      ++ writeElements list sub

end

def writeLua (list : List (Value PlainString)) (sub : Bool) : List Char :=
  enclose list sub (writeElements writeLuaTable list sub)

end

mutual

theorem toString_quotes (e : Value PlainString) : ∀ c ∈ toString e, c ≠ '"' := by
  cases e with
  | string s => exact fun c hc => (s.property c hc).left
  | table list =>
    rw [toString, List.cons_append, List.forall_mem_cons, List.forall_mem_append]
    exact ⟨by simp, toStringAll_quotes list, by simp⟩

theorem toStringAll_quotes (list : List (Value PlainString)) : ∀ c ∈ toStringAll list, c ≠ '"' := by
  cases list with
  | nil => exact List.forall_mem_nil _
  | cons e list =>
    rw [toStringAll, List.forall_mem_append, List.forall_mem_append]
    refine ⟨⟨toString_quotes e, ?_⟩, toStringAll_quotes list⟩
    split
    . exact List.forall_mem_nil _
    . simp

end

theorem flatMap_zipIdx_dropLast {α β : Type} (f : α → List β) (list : List α) (first : Nat)
    : (list.zipIdx first).flatMap (fun (e, i) => if i ≠ first + list.length - 1 then f e else [])
        = list.dropLast.flatMap f := by
  induction list generalizing first with
  | nil => rfl
  | cons e list ih =>
    cases list with
    | nil => simp
    | cons e' list =>
      have hlast : first + (e :: e' :: list).length - 1 = first + 1 + (e' :: list).length - 1 := by
        simp only [List.length_cons]
        omega
      rw [List.zipIdx_cons, List.flatMap_cons, List.dropLast_cons_cons, List.flatMap_cons, ← ih, hlast]
      congr 1
      apply if_pos
      simp only [List.length_cons]
      omega

theorem getPrimitiveStrList_eq (list : List (Value PlainString))
    : getPrimitiveStrList list
        = '{' :: ((list.dropLast.map toString).flatMap (fun s => '"' :: (s ++ ['"', ','])) ++ ['}']) := by
  have hloop := flatMap_zipIdx_dropLast (fun e => '"' :: toString e ++ ['"', ',']) list 0
  rw [Nat.zero_add] at hloop
  rw [getPrimitiveStrList]
  simp only
  rw [hloop, List.flatMap_map]
  rfl

variable {writeLuaTable : PlainString → Bool → Option (List Char)} {rest : List Char} {tokens others : List Token}

theorem getPrimitiveStrList_lacks {list : List (Value PlainString)} (hlist : list ≠ [])
    (hlex : lex none (getPrimitiveStrList list ++ rest) = some tokens)
    : ¬ Expression tokens (.table (Value.mapAll Subtype.val list)) others := by
  have hquotes : ∀ s ∈ list.dropLast.map toString, ∀ c ∈ s, c ≠ '"' := by
    rw [List.forall_mem_map]
    intro e _
    exact toString_quotes e
  rw [getPrimitiveStrList_eq, List.cons_append, List.append_assoc, List.singleton_append] at hlex
  obtain ⟨tokens₁, hstrings, rfl⟩ := exists_of_lex_cons lex_open hlex
  obtain ⟨tokens₂, hclose, rfl⟩ := exists_of_lex_strings hquotes hstrings
  obtain ⟨tokens₃, -, rfl⟩ := exists_of_lex_cons lex_close hclose
  intro htable
  cases htable with
  | table hfields =>
    have hlength := congrArg List.length hfields.eq_strings
    rw [Value.length_mapAll, List.length_map, List.length_map, List.length_dropLast] at hlength
    have hpos := List.length_pos_iff.mpr hlist
    omega

theorem writeLua_lacks (list : List (Value PlainString)) {rest : List Char} (hrest : NoTable rest)
    {tokens : List Token} (hlex : lex none (writeLua writeLuaTable list true ++ rest) = some tokens)
    (others : List Token)
    : ¬ Expression tokens (.table (Value.mapAll Subtype.val list)) others := by
  match list with
  | [] => exact hrest _ _ _ hlex
  | .string s :: list => exact getPrimitiveStrList_lacks (List.cons_ne_nil _ _) hlex
  | .table first :: list =>
    have hrest' : NoTable
        ((if list.isEmpty then [] else [',']) ++ (writeElements writeLuaTable list true ++ '}' :: rest)) := by
      cases list with
      | nil => exact noTable_close
      | cons e list => exact noTable_comma
    have htext : writeLua writeLuaTable (.table first :: list) true ++ rest
        = '{' :: (writeLua writeLuaTable first true
            ++ ((if list.isEmpty then [] else [',']) ++ (writeElements writeLuaTable list true ++ '}' :: rest))) := by
      simp [writeLua, enclose, writeElements, writeElement]
    rw [htext] at hlex
    obtain ⟨tokens', hfirst, rfl⟩ := exists_of_lex_cons lex_open hlex
    have hlacks := writeLua_lacks first hrest' hfirst
    intro htable
    cases htable with
    | table hfields =>
      obtain ⟨behind, hv⟩ := hfields.first
      exact hlacks behind hv

/--
Lists without an empty list among them, where each list holds strings or lists but not both, and no string has a line
break.
-/
inductive Uniform : List (Value PlainString) → Prop where
  | strings {ss : List PlainString} (hne : ss ≠ []) (hss : ∀ s ∈ ss, s.val.all ordinary) : Uniform (ss.map .string)
  | lists {ls : List (List (Value PlainString))} (hne : ls ≠ []) (hls : ∀ l ∈ ls, Uniform l) : Uniform (ls.map .table)

mutual

def lacking : Value PlainString → Value (List Char)
  | .string s => .string s.val
  | .table list => .table (lackingAll list)

def lackingAll : List (Value PlainString) → List (Value (List Char))
  | [] => []
  | [.string _] => []
  | e :: list => lacking e :: lackingAll list

end

theorem lackingAll_strings (ss : List PlainString)
    : lackingAll (ss.map .string) = (ss.dropLast.map Subtype.val).map .string := by
  induction ss with
  | nil => rfl
  | cons s ss ih =>
    cases ss with
    | nil => rfl
    | cons s' ss => simpa [lackingAll, lacking] using ih

theorem lackingAll_lists (ls : List (List (Value PlainString)))
    : lackingAll (ls.map .table) = ls.map fun l => .table (lackingAll l) := by
  induction ls with
  | nil => rfl
  | cons l ls ih => simp [lackingAll, lacking, ih]

theorem writesFields_elements {ls : List (List (Value PlainString))} (hne : ls ≠ [])
    (hls : ∀ l ∈ ls, Writes (writeLua writeLuaTable l true) (.table (lackingAll l)))
    : WritesFields (writeElements writeLuaTable (ls.map .table) true) (ls.map fun l => .table (lackingAll l)) := by
  induction ls with
  | nil => contradiction
  | cons l ls ih =>
    obtain ⟨hl, hls⟩ := List.forall_mem_cons.mp hls
    cases ls with
    | nil => simpa [writeElements, writeElement, writeLua] using hl.last
    | cons l' ls => simpa [writeElements, writeElement, writeLua] using hl.next (ih (List.cons_ne_nil _ _) hls)

theorem Uniform.writes {list : List (Value PlainString)} (h : Uniform list)
    : Writes (writeLua writeLuaTable list true) (.table (lackingAll list)) := by
  induction h with
  | @strings ss hne hss =>
    have hdropLast : ∀ s ∈ ss.dropLast.map Subtype.val, s.all ordinary := by
      rw [List.forall_mem_map]
      exact fun s hs => hss s (List.dropLast_subset ss hs)
    have htext : writeLua writeLuaTable (ss.map .string) true
        = '{' :: ((ss.dropLast.map Subtype.val).flatMap (fun s => '"' :: (s ++ ['"', ','])) ++ ['}']) := by
      obtain ⟨s, ss, rfl⟩ := List.exists_cons_of_ne_nil hne
      change getPrimitiveStrList ((s :: ss).map .string) = _
      rw [getPrimitiveStrList_eq, ← List.map_dropLast, List.map_map]
      rfl
    rw [htext, lackingAll_strings]
    exact (writesFields_strings hdropLast).table
  | @lists ls hne _ ih =>
    have htext : writeLua writeLuaTable (ls.map .table) true
        = '{' :: (writeElements writeLuaTable (ls.map .table) true ++ ['}']) := by
      obtain ⟨l, ls, rfl⟩ := List.exists_cons_of_ne_nil hne
      rfl
    rw [htext, lackingAll_lists]
    exact (writesFields_elements hne ih).table

theorem Uniform.denotes {list : List (Value PlainString)} (h : Uniform list)
    : Denotes (writeLua writeLuaTable list true) (.table (lackingAll list)) := h.writes.denotes

/-- No list is denoted by the text that is written for it. -/
theorem not_denotes (writeLuaTable : PlainString → Bool → Option (List Char)) (list : List (Value PlainString))
    : ¬ Denotes (writeLua writeLuaTable list true) (.table (Value.mapAll Subtype.val list)) := by
  rintro ⟨tokens, hlex, htable⟩
  rw [← List.append_nil (writeLua writeLuaTable list true)] at hlex
  exact writeLua_lacks list noTable_nil hlex [] htable

theorem denotes_counterexample
    : ¬ ∀ list : List (Value PlainString),
        Denotes (writeLua (fun _ _ => none) list true) (.table (Value.mapAll Subtype.val list)) := by
  intro h
  obtain ⟨tokens, hlex, htable⟩ := h [.string ⟨['a'], by simp⟩]
  obtain rfl : [.open, .close] = tokens := Option.some.inj hlex
  cases htable with
  | table hfields =>
    cases hfields with
    | last hv => cases hv
    | next hv => cases hv

end ExcelReader

end WzGame
