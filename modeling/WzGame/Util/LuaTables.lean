/-!
This module contains the table constructors of Lua whose fields have no keys, and the nested sequences of strings that
they denote.
-/

namespace Lua

inductive Value (α : Type) where
  | string (s : α)
  | table (vs : List (Value α))

namespace Value

variable {α β : Type}

mutual

def map (f : α → β) : Value α → Value β
  | .string s => .string (f s)
  | .table vs => .table (mapAll f vs)

def mapAll (f : α → β) : List (Value α) → List (Value β)
  | [] => []
  | v :: vs => map f v :: mapAll f vs

end

@[simp]
theorem length_mapAll (f : α → β) (vs : List (Value α)) : (mapAll f vs).length = vs.length := by
  induction vs with
  | nil => rfl
  | cons v vs ih => rw [mapAll, List.length_cons, List.length_cons, ih]

end Value

inductive Token where
  | open
  | close
  | comma
  | semicolon
  | string (s : List Char)
deriving DecidableEq

def blank (c : Char) : Bool := [' ', '\t', '\n', '\r'].contains c

def ordinary (c : Char) : Bool := !(['"', '\\', '\n', '\r'].contains c)

def lex : Option (List Char) → List Char → Option (List Token)
  | none, [] => some []
  | none, '{' :: cs => (lex none cs).map (.open :: ·)
  | none, '}' :: cs => (lex none cs).map (.close :: ·)
  | none, ',' :: cs => (lex none cs).map (.comma :: ·)
  | none, ';' :: cs => (lex none cs).map (.semicolon :: ·)
  | none, '"' :: cs => lex (some []) cs
  | none, c :: cs => if blank c then lex none cs else none
  | some _, [] => none
  | some s, '"' :: cs => (lex none cs).map (.string s.reverse :: ·)
  | some s, c :: cs => if ordinary c then lex (some (c :: s)) cs else none

mutual

inductive Expression : List Token → Value (List Char) → List Token → Prop where
  | string {s : List Char} {others : List Token} : Expression (.string s :: others) (.string s) others
  | table {tokens others : List Token} {vs : List (Value (List Char))} (hvs : Fields tokens vs others)
    : Expression (.open :: tokens) (.table vs) others

inductive Fields : List Token → List (Value (List Char)) → List Token → Prop where
  | close {others : List Token} : Fields (.close :: others) [] others
  | last {tokens others : List Token} {v : Value (List Char)} (hv : Expression tokens v (.close :: others))
    : Fields tokens [v] others
  | next {tokens tokens' others : List Token} {separator : Token} {v : Value (List Char)}
      {vs : List (Value (List Char))} (hv : Expression tokens v (separator :: tokens'))
      (hseparator : separator = .comma ∨ separator = .semicolon) (hvs : Fields tokens' vs others)
    : Fields tokens (v :: vs) others

end

def Denotes (text : List Char) (v : Value (List Char)) : Prop :=
  ∃ tokens, lex none text = some tokens ∧ Expression tokens v []

variable {s acc rest : List Char} {tokens others : List Token} {v : Value (List Char)} {vs : List (Value (List Char))}

theorem lex_string (hs : ∀ c ∈ s, c ≠ '"')
    : lex (some acc) (s ++ '"' :: rest)
        = if s.all ordinary then (lex none rest).map (.string (acc.reverse ++ s) :: ·) else none := by
  induction s generalizing acc with
  | nil => rw [List.nil_append, lex, List.append_nil, List.all_nil, if_pos rfl]
  | cons c s ih =>
    obtain ⟨hc, hs⟩ := List.forall_mem_cons.mp hs
    have hcons : lex (some acc) (c :: (s ++ '"' :: rest))
        = if ordinary c then lex (some (c :: acc)) (s ++ '"' :: rest) else none := by
      rw [lex]
      exact hc
    rw [List.cons_append, hcons, ih hs, List.all_cons, List.reverse_cons, List.append_assoc, List.singleton_append]
    cases ordinary c with
    | true => rfl
    | false => rfl

theorem exists_of_lex_string (hs : ∀ c ∈ s, c ≠ '"') (hlex : lex none ('"' :: (s ++ '"' :: rest)) = some tokens)
    : ∃ tokens', lex none rest = some tokens' ∧ tokens = .string s :: tokens' := by
  rw [lex, lex_string hs] at hlex
  split at hlex
  . obtain ⟨tokens', htokens', rfl⟩ := Option.map_eq_some_iff.mp hlex
    exact ⟨tokens', htokens', rfl⟩
  . contradiction

theorem lex_open : lex none ('{' :: rest) = (lex none rest).map (.open :: ·) := by rw [lex]

theorem lex_close : lex none ('}' :: rest) = (lex none rest).map (.close :: ·) := by rw [lex]

theorem lex_comma : lex none (',' :: rest) = (lex none rest).map (.comma :: ·) := by rw [lex]

theorem exists_of_lex_cons {c : Char} {token : Token}
    (hc : lex none (c :: rest) = (lex none rest).map (token :: ·)) (hlex : lex none (c :: rest) = some tokens)
    : ∃ tokens', lex none rest = some tokens' ∧ tokens = token :: tokens' := by
  rw [hc] at hlex
  obtain ⟨tokens', htokens', rfl⟩ := Option.map_eq_some_iff.mp hlex
  exact ⟨tokens', htokens', rfl⟩

theorem exists_of_lex_strings {ss : List (List Char)} (hss : ∀ s ∈ ss, ∀ c ∈ s, c ≠ '"')
    (hlex : lex none (ss.flatMap (fun s => '"' :: (s ++ ['"', ','])) ++ rest) = some tokens)
    : ∃ tokens', lex none rest = some tokens'
        ∧ tokens = ss.flatMap (fun s => [.string s, .comma]) ++ tokens' := by
  induction ss generalizing tokens with
  | nil => exact ⟨tokens, hlex, rfl⟩
  | cons s ss ih =>
    obtain ⟨hs, hss⟩ := List.forall_mem_cons.mp hss
    rw [List.flatMap_cons, List.append_assoc, List.cons_append, List.append_assoc, List.cons_append] at hlex
    obtain ⟨tokens₁, hcomma, rfl⟩ := exists_of_lex_string hs hlex
    obtain ⟨tokens₂, hstrings, rfl⟩ := exists_of_lex_cons lex_comma hcomma
    obtain ⟨tokens', hrest, rfl⟩ := ih hss hstrings
    exact ⟨tokens', hrest, rfl⟩

theorem Fields.first (h : Fields tokens (v :: vs) others) : ∃ behind, Expression tokens v behind := by
  cases h with
  | last hv => exact ⟨_, hv⟩
  | next hv => exact ⟨_, hv⟩

theorem Fields.eq_strings {ss : List (List Char)} {behind : List Token}
    (h : Fields (ss.flatMap (fun s => [.string s, .comma]) ++ .close :: behind) vs others)
    : vs = ss.map .string := by
  induction ss generalizing vs with
  | nil =>
    cases h with
    | close => rfl
    | last hv => cases hv
    | next hv => cases hv
  | cons s ss ih =>
    cases h with
    | last hv => cases hv
    | next hv _ hvs =>
      cases hv
      rw [List.map_cons, ih hvs]

def LexesAs (text : List Char) (tokens : List Token) : Prop :=
  ∀ rest, lex none (text ++ rest) = (lex none rest).map (tokens ++ ·)

variable {text texts : List Char}

theorem LexesAs.append {text' : List Char} {tokens' : List Token} (h : LexesAs text tokens)
    (h' : LexesAs text' tokens')
    : LexesAs (text ++ text') (tokens ++ tokens') := by
  intro rest
  rw [List.append_assoc, h, h', Option.map_map]
  congr 1
  funext others
  exact (List.append_assoc tokens tokens' others).symm

theorem LexesAs.cons {c : Char} {token : Token} (hc : ∀ rest, lex none (c :: rest) = (lex none rest).map (token :: ·))
    (h : LexesAs text tokens)
    : LexesAs (c :: text) (token :: tokens) := by
  intro rest
  rw [List.cons_append, hc, h, Option.map_map]
  rfl

theorem lexesAs_nil : LexesAs [] [] := fun _ => Option.map_id_apply.symm

theorem lexesAs_close : LexesAs ['}'] [.close] := fun _ => lex_close

theorem lexesAs_string (hs : s.all ordinary) : LexesAs ('"' :: (s ++ ['"'])) [.string s] := by
  have hquotes : ∀ c ∈ s, c ≠ '"' := by
    rintro c hc rfl
    exact absurd (List.all_eq_true.mp hs _ hc) (by decide)
  intro rest
  rw [List.cons_append, List.append_assoc, List.singleton_append, lex, lex_string hquotes, if_pos hs]
  rfl

def Writes (text : List Char) (v : Value (List Char)) : Prop :=
  ∃ tokens, LexesAs text tokens ∧ ∀ others, Expression (tokens ++ others) v others

def WritesFields (text : List Char) (vs : List (Value (List Char))) : Prop :=
  ∃ tokens, LexesAs text tokens ∧ ∀ others, Fields (tokens ++ .close :: others) vs others

theorem Writes.denotes (h : Writes text v) : Denotes text v := by
  obtain ⟨tokens, hlex, hv⟩ := h
  have htokens := hlex []
  have hexpression := hv []
  rw [List.append_nil] at htokens hexpression
  refine ⟨tokens, ?_, hexpression⟩
  rw [htokens, lex, Option.map_some, List.append_nil]

theorem writes_string (hs : s.all ordinary) : Writes ('"' :: (s ++ ['"'])) (.string s) :=
  ⟨[.string s], lexesAs_string hs, fun _ => .string⟩

theorem writesFields_nil : WritesFields [] [] := ⟨[], lexesAs_nil, fun _ => .close⟩

theorem Writes.last (h : Writes text v) : WritesFields text [v] := by
  obtain ⟨tokens, hlex, hv⟩ := h
  exact ⟨tokens, hlex, fun others => .last (hv _)⟩

theorem Writes.next (h : Writes text v) (hs : WritesFields texts vs)
    : WritesFields (text ++ ',' :: texts) (v :: vs) := by
  obtain ⟨tokens, hlex, hv⟩ := h
  obtain ⟨tokens', hlex', hvs⟩ := hs
  refine ⟨tokens ++ .comma :: tokens', hlex.append (hlex'.cons fun _ => lex_comma), fun others => ?_⟩
  rw [List.append_assoc]
  exact .next (hv _) (.inl rfl) (hvs others)

theorem writesFields_strings {ss : List (List Char)} (hss : ∀ s ∈ ss, s.all ordinary)
    : WritesFields (ss.flatMap fun s => '"' :: (s ++ ['"', ','])) (ss.map .string) := by
  induction ss with
  | nil => exact writesFields_nil
  | cons s ss ih =>
    obtain ⟨hs, hss⟩ := List.forall_mem_cons.mp hss
    have hnext := (writes_string hs).next (ih hss)
    rw [List.cons_append, List.append_assoc] at hnext
    rw [List.flatMap_cons, List.cons_append, List.append_assoc]
    exact hnext

theorem WritesFields.table (h : WritesFields text vs) : Writes ('{' :: (text ++ ['}'])) (.table vs) := by
  obtain ⟨tokens, hlex, hvs⟩ := h
  refine ⟨.open :: (tokens ++ [.close]), (hlex.append lexesAs_close).cons fun _ => lex_open, fun others => ?_⟩
  rw [List.cons_append, List.append_assoc]
  exact .table (hvs others)

def NoTable (text : List Char) : Prop :=
  ∀ tokens vs others, lex none text = some tokens → ¬ Expression tokens (.table vs) others

theorem noTable_nil : NoTable [] := by
  intro tokens vs others hlex htable
  rw [lex, Option.some.injEq] at hlex
  rw [← hlex] at htable
  cases htable

theorem noTable_comma : NoTable (',' :: rest) := by
  intro tokens vs others hlex htable
  obtain ⟨tokens', -, rfl⟩ := exists_of_lex_cons lex_comma hlex
  cases htable

theorem noTable_close : NoTable ('}' :: rest) := by
  intro tokens vs others hlex htable
  obtain ⟨tokens', -, rfl⟩ := exists_of_lex_cons lex_close hlex
  cases htable

end Lua
