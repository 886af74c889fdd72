import Mathlib.Data.Fintype.EquivFin
import Mathlib.Data.Set.Finite.List
import Mathlib.Data.List.Nodup
import Mathlib.Logic.Function.Basic

/-!
This module contains the text and the parameters that `getWhereClause` of `DBUtil` appends to a statement, and
what conditions they stand for.
-/

namespace WzGame

structure ColumnMap (α : Type) where
  entries : List (String × α)
  nodup : (entries.map Prod.fst).Nodup

namespace ColumnMap

variable {α : Type}

def size (m : ColumnMap α) : Nat := m.entries.length

def keySet (m : ColumnMap α) : List String := m.entries.map Prod.fst

def get (m : ColumnMap α) (key : String) : Option α := m.entries.lookup key

end ColumnMap

inductive WhereValue (ν : Type) where
  | scalar (v : ν)
  | collection (vs : List ν)

namespace DBUtil

variable {ν : Type}

def placeholders : Bool → List ν → String
  | _, [] => ""
  | firstKey, _ :: vs => (if firstKey then "" else ", ") ++ "?" ++ placeholders false vs

def whereLoop (fields : Option (List String))
    : Bool → List (String × WhereValue ν) → String → List ν → String × List ν
  | _, [], builder, params => (builder, params)
  | first, (key, value) :: rest, builder, params =>
    if fields.any fun fields => key ∉ fields then
      whereLoop fields first rest builder params
    else
      let builder := builder ++ if first then "WHERE " else "AND "
      match value with
      -- ignore
      | .collection [] => whereLoop fields false rest builder params
      -- size = 1
      | .collection [v] => whereLoop fields false rest (builder ++ "`" ++ key ++ "` = ? ") (params ++ [v])
      | .collection vs =>
        whereLoop fields false rest (builder ++ "`" ++ key ++ "` in (" ++ placeholders true vs ++ ") ")
          (params ++ vs)
      -- single value
      | .scalar v => whereLoop fields false rest (builder ++ "`" ++ key ++ "` = ? ") (params ++ [v])

-- the builder and the parameters afterwards; `none` is a `null`
def getWhereClause (where' : Option (ColumnMap (WhereValue ν))) (builder : String) (params : List ν)
    (fields : Option (List String)) : String × List ν :=
  match where' with
  | none => (builder, params)
  | some map => if map.size = 0 then (builder, params) else whereLoop fields true map.entries builder params

end DBUtil

inductive Condition (ν : Type) where
  | equals (column : String) (v : ν)
  | among (column : String) (vs : List ν)

namespace Condition

variable {ν : Type}

def column : Condition ν → String
  | equals column _ => column
  | among column _ => column

def params : Condition ν → List ν
  | equals _ v => [v]
  | among _ vs => vs

def text : Condition ν → String
  | equals column _ => "`" ++ column ++ "` = ? "
  | among column vs => "`" ++ column ++ "` in (" ++ ", ".intercalate (vs.map fun _ => "?") ++ ") "

def Complete (c : Condition ν) : Prop := c.params ≠ [] ∧ '`' ∉ c.column.toList

def Holds (row : String → ν) : Condition ν → Prop
  | equals column v => row column = v
  | among column vs => row column ∈ vs

end Condition

def joinConditions : Bool → List String → String
  | _, [] => ""
  | first, text :: texts => (if first then "WHERE " else "AND ") ++ text ++ joinConditions false texts

-- `WHERE c1 AND c2 ...`, or nothing if there are no conditions.
def clauseText {ν : Type} (conditions : List (Condition ν)) : String :=
  joinConditions true (conditions.map Condition.text)

namespace WhereValue

variable {ν : Type}

def values : WhereValue ν → List ν
  | scalar v => [v]
  | collection vs => vs

def Allows (value : WhereValue ν) (v : ν) : Prop := value.values = [] ∨ v ∈ value.values

def condition (key : String) : WhereValue ν → Option (Condition ν)
  | scalar v => some (.equals key v)
  | collection [] => none
  | collection [v] => some (.equals key v)
  | collection vs => some (.among key vs)

end WhereValue

namespace DBUtil

variable {ν : Type}

def selected (where' : Option (ColumnMap (WhereValue ν))) (fields : Option (List String))
    : List (String × WhereValue ν) :=
  match where' with
  | none => []
  | some map => map.entries.filter fun e => ¬ fields.any fun fields => e.1 ∉ fields

def entryText (e : String × WhereValue ν) : String := ((e.2.condition e.1).map Condition.text).getD ""

def ClauseCorrect (where' : Option (ColumnMap (WhereValue ν))) (fields : Option (List String)) : Prop :=
  ∀ (builder : String) (params : List ν), ∃ conditions : List (Condition ν),
    (∀ c ∈ conditions, c.Complete)
      ∧ getWhereClause where' builder params fields
        = (builder ++ clauseText conditions, params ++ conditions.flatMap Condition.params)
      ∧ ∀ row, (∀ c ∈ conditions, c.Holds row) ↔ ∀ e ∈ selected where' fields, e.2.Allows (row e.1)

variable {fields : Option (List String)} {where' : Option (ColumnMap (WhereValue ν))}

theorem placeholders_cons (v : ν) (vs : List ν)
    : placeholders true (v :: vs) = ", ".intercalate ((v :: vs).map fun _ => "?") := by
  have htail : ∀ vs : List ν, "?" ++ placeholders false vs = ", ".intercalate ("?" :: vs.map fun _ => "?") := by
    intro vs
    induction vs with
    | nil => rw [placeholders, List.map_nil, String.intercalate_singleton, String.append_empty]
    | cons v vs ih =>
      rw [placeholders, List.map_cons, String.intercalate_cons_cons, ← ih]
      simp only [Bool.false_eq_true, if_false, String.append_assoc]
  rw [placeholders, List.map_cons, ← htail]
  simp only [if_true, String.empty_append]

theorem whereLoop_eq (first : Bool) (entries : List (String × WhereValue ν)) (builder : String)
    (params : List ν)
    : whereLoop fields first entries builder params
        = (builder ++ joinConditions first
            ((entries.filter fun e => ¬ fields.any fun fields => e.1 ∉ fields).map entryText),
          params ++ (entries.filter fun e => ¬ fields.any fun fields => e.1 ∉ fields).flatMap
            fun e => e.2.values) := by
  induction entries generalizing first builder params with
  | nil => simp [whereLoop, joinConditions]
  | cons e entries ih =>
    obtain ⟨key, value⟩ := e
    rw [whereLoop]
    split
    . next hfilter =>
      rw [List.filter_cons_of_neg (by simpa using hfilter)]
      exact ih first builder params
    . next hfilter =>
      rw [List.filter_cons_of_pos (by simpa using hfilter), List.map_cons, joinConditions, List.flatMap_cons]
      cases value with
      | scalar v =>
        simp only [ih, entryText, WhereValue.condition, Option.map_some, Option.getD_some, Condition.text,
          WhereValue.values, String.append_assoc, List.append_assoc]
      | collection vs =>
        cases vs with
        | nil =>
          simp only [ih, entryText, WhereValue.condition, Option.map_none, Option.getD_none, String.append_assoc,
            WhereValue.values, List.nil_append, String.empty_append]
        | cons v vs =>
          cases vs with
          | nil =>
            simp only [ih, entryText, WhereValue.condition, Option.map_some, Option.getD_some, Condition.text,
              WhereValue.values, String.append_assoc, List.append_assoc]
          | cons v' vs =>
            simp only [ih, entryText, WhereValue.condition, Option.map_some, Option.getD_some, Condition.text,
              WhereValue.values, String.append_assoc, List.append_assoc, placeholders_cons]

theorem getWhereClause_eq (builder : String) (params : List ν)
    : getWhereClause where' builder params fields
        = (builder ++ joinConditions true ((selected where' fields).map entryText),
          params ++ (selected where' fields).flatMap fun e => e.2.values) := by
  cases where' with
  | none => simp [getWhereClause, selected, joinConditions]
  | some map =>
    rw [getWhereClause, selected]
    split
    . next hsize =>
      have hentries : map.entries = [] := List.length_eq_zero_iff.mp hsize
      simp [hentries, joinConditions]
    . exact whereLoop_eq true map.entries builder params

theorem condition_eq_none {key : String} {value : WhereValue ν}
    : value.condition key = none ↔ value.values = [] := by
  cases value with
  | scalar v => simp [WhereValue.condition, WhereValue.values]
  | collection vs =>
    cases vs with
    | nil => simp [WhereValue.condition, WhereValue.values]
    | cons v vs => cases vs <;> simp [WhereValue.condition, WhereValue.values]

theorem condition_spec {key : String} {value : WhereValue ν} {c : Condition ν}
    (h : value.condition key = some c)
    : c.column = key ∧ c.params = value.values ∧ ∀ row, c.Holds row ↔ value.Allows (row key) := by
  cases value with
  | scalar v =>
    obtain rfl := Option.some.inj h
    refine ⟨rfl, rfl, fun row => ?_⟩
    simp [Condition.Holds, WhereValue.Allows, WhereValue.values]
  | collection vs =>
    cases vs with
    | nil => contradiction
    | cons v vs =>
      cases vs with
      | nil =>
        obtain rfl := Option.some.inj h
        refine ⟨rfl, rfl, fun row => ?_⟩
        simp [Condition.Holds, WhereValue.Allows, WhereValue.values]
      | cons v' vs =>
        obtain rfl := Option.some.inj h
        refine ⟨rfl, rfl, fun row => ?_⟩
        simp [Condition.Holds, WhereValue.Allows, WhereValue.values]

theorem quoted_inj {name name' xs ys : List Char} (hname : '`' ∉ name) (hname' : '`' ∉ name')
    (h : name ++ '`' :: xs = name' ++ '`' :: ys)
    : name = name' ∧ xs = ys := by
  induction name generalizing name' with
  | nil =>
    cases name' with
    | nil => exact ⟨rfl, (List.cons.inj h).2⟩
    | cons c name' =>
      obtain rfl := (List.cons.inj h).1
      exact absurd List.mem_cons_self hname'
  | cons c name ih =>
    cases name' with
    | nil =>
      obtain rfl := (List.cons.inj h).1
      exact absurd List.mem_cons_self hname
    | cons c' name' =>
      obtain ⟨rfl, htail⟩ := List.cons.inj h
      obtain ⟨rfl, hrest⟩ := ih (fun hmem => hname (List.mem_cons_of_mem _ hmem))
        (fun hmem => hname' (List.mem_cons_of_mem _ hmem)) htail
      exact ⟨rfl, hrest⟩

theorem placeholders_inj {vs vs' : List ν} {xs ys : List Char}
    (h : (placeholders false vs).toList ++ ')' :: xs = (placeholders false vs').toList ++ ')' :: ys)
    : vs.length = vs'.length ∧ xs = ys := by
  induction vs generalizing vs' with
  | nil =>
    cases vs' with
    | nil => simpa [placeholders] using h
    | cons v vs' => simp [placeholders] at h
  | cons v vs ih =>
    cases vs' with
    | nil => simp [placeholders] at h
    | cons v' vs' =>
      obtain ⟨hlength, hrest⟩ := @ih vs' (by simpa [placeholders] using h)
      exact ⟨congrArg Nat.succ hlength, hrest⟩

def behindColumn : Condition ν → List Char
  | .equals _ _ => [' ', '=', ' ', '?', ' ']
  | .among _ vs => [' ', 'i', 'n', ' ', '('] ++ (placeholders true vs).toList ++ [')', ' ']

theorem toList_text {c : Condition ν} (hc : c.Complete)
    : c.text.toList = '`' :: c.column.toList ++ '`' :: behindColumn c := by
  cases c with
  | equals column v => simp [Condition.text, Condition.column, behindColumn]
  | among column vs =>
    cases vs with
    | nil => exact absurd rfl hc.1
    | cons v vs => simp [Condition.text, Condition.column, behindColumn, placeholders_cons]

theorem behindColumn_inj {c c' : Condition ν} {xs ys : List Char} (hc : c.Complete) (hc' : c'.Complete)
    (h : behindColumn c ++ xs = behindColumn c' ++ ys)
    : c.params.length = c'.params.length ∧ xs = ys := by
  cases c with
  | equals column v =>
    cases c' with
    | equals column' v' => exact ⟨rfl, by simpa [behindColumn] using h⟩
    | among column' vs' => simp [behindColumn] at h
  | among column vs =>
    cases c' with
    | equals column' v' => simp [behindColumn] at h
    | among column' vs' =>
      cases vs with
      | nil => exact absurd rfl hc.1
      | cons v vs =>
        cases vs' with
        | nil => exact absurd rfl hc'.1
        | cons v' vs' =>
          obtain ⟨hlength, hrest⟩ := @placeholders_inj ν vs vs' (' ' :: xs) (' ' :: ys)
            (by simpa [behindColumn, placeholders] using h)
          exact ⟨congrArg Nat.succ hlength, (List.cons.inj hrest).2⟩

theorem text_inj {c c' : Condition ν} {xs ys : List Char} (hc : c.Complete) (hc' : c'.Complete)
    (h : c.text.toList ++ xs = c'.text.toList ++ ys)
    : c.column = c'.column ∧ c.params.length = c'.params.length ∧ xs = ys := by
  rw [toList_text hc, toList_text hc', List.append_assoc, List.append_assoc] at h
  obtain ⟨hcolumn, hbehind⟩ := quoted_inj hc.2 hc'.2 (List.cons.inj h).2
  exact ⟨String.toList_inj.mp hcolumn, behindColumn_inj hc hc' hbehind⟩

theorem joinConditions_cons (first : Bool) (text : String) (texts : List String)
    : (joinConditions first (text :: texts)).toList
        = (if first then "WHERE " else "AND ").toList ++ (text.toList ++ (joinConditions false texts).toList) := by
  rw [joinConditions, String.toList_append, String.toList_append, List.append_assoc]

theorem joinConditions_inj {first : Bool} {entries : List (String × WhereValue ν)}
    {conditions : List (Condition ν)} (hnames : ∀ e ∈ entries, e.2.values ≠ [] → '`' ∉ e.1.toList)
    (hcomplete : ∀ c ∈ conditions, c.Complete)
    (h : (joinConditions first (entries.map entryText)).toList
      = (joinConditions first (conditions.map Condition.text)).toList)
    : (∀ e ∈ entries, e.2.values ≠ []) ∧ entries.map Prod.fst = conditions.map Condition.column
        ∧ (entries.map fun e => e.2.values.length) = conditions.map fun c => c.params.length := by
  induction entries generalizing first conditions with
  | nil =>
    cases conditions with
    | nil => simp
    | cons c conditions =>
      rw [List.map_cons, joinConditions_cons] at h
      cases first <;> simp [joinConditions] at h
  | cons e entries ih =>
    cases conditions with
    | nil =>
      rw [List.map_cons, joinConditions_cons] at h
      cases first <;> simp [joinConditions] at h
    | cons c conditions =>
      have hc := hcomplete c (by simp)
      rw [List.map_cons, List.map_cons, joinConditions_cons, joinConditions_cons] at h
      have hbehind := List.append_cancel_left h
      cases hcondition : e.2.condition e.1 with
      | none =>
        -- Behind the word there is another one or nothing, and not a name.
        have hempty : entryText e = "" := by simp [entryText, hcondition]
        rw [hempty, toList_text hc] at hbehind
        cases entries with
        | nil => simp [joinConditions] at hbehind
        | cons e' entries =>
          rw [List.map_cons, joinConditions_cons] at hbehind
          simp at hbehind
      | some c' =>
        obtain ⟨hcolumn, hparams, -⟩ := condition_spec hcondition
        have hvalues : e.2.values ≠ [] := by
          intro hnone
          rw [condition_eq_none.mpr hnone] at hcondition
          contradiction
        have hc' : c'.Complete := by
          rw [Condition.Complete, hparams, hcolumn]
          exact ⟨hvalues, hnames e (by simp) hvalues⟩
        have htext : entryText e = c'.text := by simp [entryText, hcondition]
        rw [htext] at hbehind
        obtain ⟨hname, hlength, hrest⟩ := text_inj hc' hc hbehind
        obtain ⟨hall, hcolumns, hlengths⟩ := ih (fun e' he' => hnames e' (by simp [he']))
          (fun c'' hc'' => hcomplete c'' (by simp [hc''])) hrest
        refine ⟨List.forall_mem_cons.mpr ⟨hvalues, hall⟩, ?_, ?_⟩
        . rw [List.map_cons, List.map_cons, hcolumns, ← hname, hcolumn]
        . rw [List.map_cons, List.map_cons, hlengths, ← hlength, hparams]

theorem nodup_selected : ((selected where' fields).map Prod.fst).Nodup := by
  cases where' with
  | none => exact List.nodup_nil
  | some map => exact map.nodup.sublist (List.filter_sublist.map Prod.fst)

theorem holds_update {c : Condition ν} {row : String → ν} {key : String} {v : ν} (hkey : c.column ≠ key)
    : c.Holds (Function.update row key v) ↔ c.Holds row := by
  cases c with
  | equals column v' =>
    have hne : column ≠ key := hkey
    rw [Condition.Holds, Condition.Holds, Function.update_of_ne hne]
  | among column vs =>
    have hne : column ≠ key := hkey
    rw [Condition.Holds, Condition.Holds, Function.update_of_ne hne]

theorem exists_row [Nonempty ν] {entries : List (String × WhereValue ν)} (hnodup : (entries.map Prod.fst).Nodup)
    : ∃ row : String → ν, ∀ e ∈ entries, e.2.Allows (row e.1) := by
  induction entries with
  | nil => exact ⟨fun _ => Classical.arbitrary ν, by simp⟩
  | cons e entries ih =>
    obtain ⟨hkey, hnodup⟩ := List.nodup_cons.mp hnodup
    obtain ⟨row, hrow⟩ := ih hnodup
    have hother : ∀ v, ∀ e' ∈ entries, e'.2.Allows (Function.update row e.1 v e'.1) := by
      intro v e' he'
      have hne : e'.1 ≠ e.1 := fun heq => hkey (List.mem_map.mpr ⟨e', he', heq⟩)
      rw [Function.update_of_ne hne]
      exact hrow e' he'
    cases hvalues : e.2.values with
    | nil => exact ⟨row, List.forall_mem_cons.mpr ⟨.inl hvalues, hrow⟩⟩
    | cons v vs =>
      refine ⟨Function.update row e.1 v, List.forall_mem_cons.mpr ⟨.inr ?_, hother v⟩⟩
      rw [Function.update_self, hvalues]
      exact List.mem_cons_self

theorem column_mem [Infinite ν] {entries : List (String × WhereValue ν)} {conditions : List (Condition ν)}
    (hnodup : (entries.map Prod.fst).Nodup)
    (hmeaning : ∀ row, (∀ c ∈ conditions, c.Holds row) ↔ ∀ e ∈ entries, e.2.Allows (row e.1))
    {e : String × WhereValue ν} (he : e ∈ entries) (hvalues : e.2.values ≠ [])
    : e.1 ∈ conditions.map Condition.column := by
  by_contra hmem
  obtain ⟨row, hrow⟩ := exists_row hnodup
  obtain ⟨v, hv⟩ := (List.finite_toSet e.2.values).exists_notMem
  have hother : ∀ c ∈ conditions, c.Holds (Function.update row e.1 v) := by
    intro c hc
    have hne : c.column ≠ e.1 := fun heq => hmem (List.mem_map.mpr ⟨c, hc, heq⟩)
    rw [holds_update hne]
    exact (hmeaning row).mpr hrow c hc
  rcases (hmeaning _).mp hother e he with hnone | hsome
  . exact hvalues hnone
  . rw [Function.update_self] at hsome
    exact hv hsome

def conditionsOf (entries : List (String × WhereValue ν)) : List (Condition ν) :=
  entries.filterMap fun e => e.2.condition e.1

theorem conditionsOf_eq {entries : List (String × WhereValue ν)} (hvalues : ∀ e ∈ entries, e.2.values ≠ [])
    : (conditionsOf entries).map Condition.text = entries.map entryText
        ∧ (conditionsOf entries).flatMap Condition.params = entries.flatMap fun e => e.2.values := by
  induction entries with
  | nil => exact ⟨rfl, rfl⟩
  | cons e entries ih =>
    obtain ⟨he, hrest⟩ := List.forall_mem_cons.mp hvalues
    obtain ⟨htexts, hparams⟩ := ih hrest
    cases hcondition : e.2.condition e.1 with
    | none => exact absurd (condition_eq_none.mp hcondition) he
    | some c =>
      have hcons : conditionsOf (e :: entries) = c :: conditionsOf entries := List.filterMap_cons_some hcondition
      rw [hcons, List.map_cons, List.flatMap_cons, htexts, hparams, (condition_spec hcondition).2.1]
      simp [entryText, hcondition]

theorem conditionsOf_holds {entries : List (String × WhereValue ν)} (row : String → ν)
    : (∀ c ∈ conditionsOf entries, c.Holds row) ↔ ∀ e ∈ entries, e.2.Allows (row e.1) := by
  constructor
  . intro h e he
    cases hcondition : e.2.condition e.1 with
    | none => exact .inl (condition_eq_none.mp hcondition)
    | some c =>
      exact ((condition_spec hcondition).2.2 row).mp (h c (List.mem_filterMap.mpr ⟨e, he, hcondition⟩))
  . intro h c hc
    obtain ⟨e, he, hcondition⟩ := List.mem_filterMap.mp hc
    exact ((condition_spec hcondition).2.2 row).mpr (h e he)

theorem conditionsOf_complete {entries : List (String × WhereValue ν)}
    (hnames : ∀ e ∈ entries, '`' ∉ e.1.toList)
    : ∀ c ∈ conditionsOf entries, c.Complete := by
  intro c hc
  obtain ⟨e, he, hcondition⟩ := List.mem_filterMap.mp hc
  obtain ⟨hcolumn, hparams, -⟩ := condition_spec hcondition
  rw [Condition.Complete, hparams, hcolumn]
  refine ⟨fun hnone => ?_, hnames e he⟩
  rw [condition_eq_none.mpr hnone] at hcondition
  contradiction

/-- The clause is right exactly if no selected column has an empty collection or a name with a backtick. -/
theorem clauseCorrect_iff [Infinite ν] (where' : Option (ColumnMap (WhereValue ν)))
    (fields : Option (List String))
    : ClauseCorrect where' fields ↔ ∀ e ∈ selected where' fields, e.2.values ≠ [] ∧ '`' ∉ e.1.toList := by
  constructor
  . intro h
    obtain ⟨conditions, hcomplete, happended, hmeaning⟩ := h "" []
    rw [getWhereClause_eq] at happended
    have htext := congrArg String.toList (Prod.mk.inj happended).1
    rw [String.empty_append, String.empty_append] at htext
    have hnames : ∀ e ∈ selected where' fields, e.2.values ≠ [] → '`' ∉ e.1.toList := by
      intro e he hvalues
      obtain ⟨c, hc, hcolumn⟩ := List.mem_map.mp (column_mem nodup_selected hmeaning he hvalues)
      rw [← hcolumn]
      exact (hcomplete c hc).2
    obtain ⟨hvalues, -⟩ := joinConditions_inj hnames hcomplete htext
    exact fun e he => ⟨hvalues e he, hnames e he (hvalues e he)⟩
  . intro h builder params
    obtain ⟨htexts, hparams⟩ := conditionsOf_eq fun e he => (h e he).1
    refine ⟨conditionsOf (selected where' fields), conditionsOf_complete fun e he => (h e he).2, ?_,
      conditionsOf_holds⟩
    rw [getWhereClause_eq, clauseText, htexts, hparams]

def oneOfEach : ColumnMap (WhereValue Nat) where
  entries := [("id", .scalar 7), ("level", .collection [1, 2, 3]), ("name", .collection []),
    ("server", .collection [4])]
  nodup := by decide

theorem clauseCorrect_oneOfEach : ClauseCorrect (some oneOfEach) (some ["server", "level", "id"]) := by
  apply (clauseCorrect_iff _ _).mpr
  simp [selected, oneOfEach, WhereValue.values]

theorem clauseCorrect_counterexample
    : ¬ ∀ (where' : Option (ColumnMap (WhereValue Nat))) (fields : Option (List String)),
        ClauseCorrect where' fields := by
  intro hevery
  have hselected : selected (some oneOfEach) (some ["name"]) = [("name", .collection [])] := by
    simp [selected, oneOfEach]
  obtain ⟨conditions, hcomplete, happended, -⟩ := hevery (some oneOfEach) (some ["name"]) "" []
  rw [getWhereClause_eq, hselected] at happended
  have htext := congrArg String.toList (Prod.mk.inj happended).1
  rw [String.empty_append, String.empty_append] at htext
  obtain ⟨hvalues, -⟩ := joinConditions_inj (by simp) hcomplete htext
  exact hvalues ("name", .collection []) (by simp) rfl

end DBUtil

end WzGame
