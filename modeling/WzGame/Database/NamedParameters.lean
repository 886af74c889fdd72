import WzGame.Database.WhereClause
import WzGame.Util.MapObject
import WzGame.Util.SubstringCounts

/-!
This module contains the statement that `execute` of `DBUtil` makes of a text with named parameters.
-/

namespace WzGame

open Substrings

abbrev KeyNode := Node Char

namespace DBUtil

variable {ν : Type}

-- `String.indexOf`, from the beginning of the text.
def indexOf (key : List Char) : List Char → Option Nat
  | [] => if key = [] then some 0 else none
  | c :: text => if key <+: c :: text then some 0 else (indexOf key text).map (· + 1)

theorem occurs_of_indexOf {key text : List Char} {offset : Nat} (h : indexOf key text = some offset)
    : key <+: text.drop offset := by
  induction text generalizing offset with
  | nil =>
    rw [indexOf] at h
    split at h
    . next hkey => simp [hkey]
    . contradiction
  | cons c text ih =>
    rw [indexOf] at h
    split at h
    . next hhead =>
      obtain rfl := Option.some.inj h
      exact hhead
    . obtain ⟨offset', hoffset, rfl⟩ := Option.map_eq_some_iff.mp h
      exact ih hoffset

def findLoop (sql key : List Char) (hkey : key ≠ []) (index : Nat) (nodeList : List KeyNode) : List KeyNode :=
  match h : indexOf key (sql.drop index) with
  | none => nodeList
  | some offset => findLoop sql key hkey (index + offset + key.length) (nodeList ++ [⟨key, index + offset⟩])
termination_by sql.length + 1 - index
decreasing_by
  have hle := (occurs_of_indexOf h).length_le
  have hlength := List.length_pos_iff.mpr hkey
  rw [List.length_drop, List.length_drop] at hle
  omega

def findAllNodes (sql : List Char) (key : String) (nodeList : List KeyNode) : List KeyNode :=
  if hkey : MapObject.trim key.toList = [] then
    nodeList
  else
    findLoop sql (MapObject.trim key.toList) hkey 0 nodeList

def sortedNodes (sql : List Char) (params : ColumnMap ν) : List KeyNode :=
  (params.keySet.foldl (fun nodeList key => findAllNodes sql key nodeList) []).mergeSort
    fun o1 o2 => o1.position ≤ o2.position

-- the loop over the nodes, with `String.replace` and the values, of which `none` is a `null`
def replaceLoop (params : ColumnMap ν) : List KeyNode → List Char → List (Option ν) → List Char × List (Option ν)
  | [], sql, paramsArray => (sql, paramsArray)
  | node :: nodeList, sql, paramsArray =>
    replaceLoop params nodeList (replace node.key '?' 0 sql) (paramsArray ++ [params.get (String.ofList node.key)])

def executeMap (sql : String) (params : ColumnMap ν) : String × List (Option ν) :=
  let (text, paramsArray) := replaceLoop params (sortedNodes sql.toList params) sql.toList []
  (String.ofList text, paramsArray)

def names (params : ColumnMap ν) : List (List Char) := params.keySet.map String.toList

def counted (sql : String) (params : ColumnMap ν) : List (Piece Char) := scan (names params) 0 sql.toList

def NamedCorrect (sql : String) (params : ColumnMap ν) : Prop :=
  executeMap sql params
    = (String.ofList ((counted sql params).map (Piece.shown '?')),
      (nodes 0 (counted sql params)).map fun node => params.get (String.ofList node.key))

structure Nameable (sql : String) (params : ColumnMap ν) : Prop where
  sql : '?' ∉ sql.toList
  nonempty : "" ∉ params.keySet
  trimmed : ∀ name ∈ params.keySet, MapObject.trim name.toList = name.toList
  unmarked : ∀ name ∈ params.keySet, '?' ∉ name.toList

def FoundEarlier (sql : String) (name' name : List Char) : Prop :=
  ∃ pos ∈ positions name' 0 0 sql.toList, ∀ other ∈ positions name 0 0 sql.toList, pos < other

/-- Inside of every name that is found for itself the same name counts, and a name that begins inside of another one
that counts shares its place with one that counts and is found earlier. -/
def Separated (sql : String) (params : ColumnMap ν) : Prop :=
  (∀ name ∈ names params, ∀ pos ∈ positions name 0 0 sql.toList, ∃ node ∈ nodes 0 (counted sql params),
      node.key = name ∧ pos ≤ node.position ∧ node.position < pos + name.length)
    ∧ Sheltered (FoundEarlier sql) (names params) (counted sql params)

theorem positions_eq {key : List Char} (hkey : key ≠ []) (idx : Nat) (text : List Char)
    : positions key 0 idx text
        = ((indexOf key text).map fun offset => (idx + offset) ::
            positions key 0 (idx + offset + key.length) (text.drop (offset + key.length))).getD [] := by
  induction text generalizing idx with
  | nil => simp [positions, indexOf, hkey]
  | cons c text ih =>
    have hlength : key.length - 1 + 1 = key.length := Nat.sub_add_cancel (List.length_pos_iff.mpr hkey)
    rw [positions, indexOf]
    split
    . rw [positions_skip, Nat.add_assoc, Nat.add_comm 1, hlength, Option.map_some, Option.getD_some, Nat.zero_add,
        ← hlength, List.drop_succ_cons]
      rfl
    . rw [ih]
      cases indexOf key text with
      | none => rfl
      | some offset =>
        simp only [Option.map_some, Option.getD_some]
        rw [Nat.add_right_comm offset 1, List.drop_succ_cons, Nat.add_assoc idx 1, Nat.add_comm 1 offset]

theorem findLoop_eq (sql key : List Char) (hkey : key ≠ []) (index : Nat) (nodeList : List KeyNode)
    : findLoop sql key hkey index nodeList
        = nodeList ++ (positions key 0 index (sql.drop index)).map (Node.mk key) := by
  fun_induction findLoop sql key hkey index nodeList with
  | case1 index nodeList h =>
    rw [positions_eq hkey, h]
    simp
  | case2 index nodeList offset h ih =>
    rw [ih, positions_eq hkey index, h]
    simp [Nat.add_assoc]

theorem findAllNodes_eq (sql : List Char) {key : String} (hkey : key ≠ "")
    (htrim : MapObject.trim key.toList = key.toList) (nodeList : List KeyNode)
    : findAllNodes sql key nodeList = nodeList ++ (positions key.toList 0 0 sql).map (Node.mk key.toList) := by
  rw [findAllNodes]
  split
  . next hempty =>
    rw [htrim, String.toList_eq_nil_iff] at hempty
    contradiction
  . rw [findLoop_eq, htrim]
    rfl

theorem replaceLoop_eq (params : ColumnMap ν) (nodeList : List KeyNode) (sql : List Char)
    (paramsArray : List (Option ν))
    : replaceLoop params nodeList sql paramsArray
        = ((nodeList.map (·.key)).foldl (fun sql key => replace key '?' 0 sql) sql,
          paramsArray ++ nodeList.map fun node => params.get (String.ofList node.key)) := by
  induction nodeList generalizing sql paramsArray with
  | nil => rw [replaceLoop, List.map_nil, List.map_nil, List.foldl_nil, List.append_nil]
  | cons node nodeList ih =>
    rw [replaceLoop, ih, List.map_cons, List.map_cons, List.foldl_cons, List.append_assoc, List.singleton_append]

section Named

variable {sql : String} {params : ColumnMap ν}

theorem Nameable.nil_notMem (h : Nameable sql params) : [] ∉ names params := by
  intro hmem
  obtain ⟨name, hname, hempty⟩ := List.mem_map.mp hmem
  rw [String.toList_eq_nil_iff] at hempty
  exact h.nonempty (hempty ▸ hname)

theorem nodup_names (params : ColumnMap ν) : (names params).Nodup :=
  List.Nodup.map (fun _ _ => String.toList_inj.mp) params.nodup

theorem Nameable.found (h : Nameable sql params)
    : Found (names params) sql.toList (sortedNodes sql.toList params) := by
  have hnodes : ∀ keys : List String, (∀ key ∈ keys, key ∈ params.keySet) → ∀ nodeList,
      keys.foldl (fun nodeList key => findAllNodes sql.toList key nodeList) nodeList
        = nodeList ++ keys.flatMap fun key => (positions key.toList 0 0 sql.toList).map (Node.mk key.toList) := by
    intro keys
    induction keys with
    | nil => intro _ nodeList; simp
    | cons key keys ih =>
      intro hkeys nodeList
      obtain ⟨hkey, hkeys⟩ := List.forall_mem_cons.mp hkeys
      have hne : key ≠ "" := fun heq => h.nonempty (heq ▸ hkey)
      rw [List.foldl_cons, findAllNodes_eq _ hne (h.trimmed key hkey), ih hkeys, List.flatMap_cons,
        List.append_assoc]
  constructor
  . refine (List.mergeSort_perm _ _).trans ?_
    rw [hnodes params.keySet (fun _ hkey => hkey), List.nil_append, names, List.flatMap_map]
  . refine (List.pairwise_mergeSort ?_ ?_ _).imp fun {node node'} hle => ?_
    . intro o1 o2 o3 h12 h23
      simp only [decide_eq_true_eq] at h12 h23 ⊢
      exact Nat.le_trans h12 h23
    . intro o1 o2
      simpa using Nat.le_total o1.position o2.position
    . simpa using hle

theorem Nameable.scanned (h : Nameable sql params) : Scanned (names params) (counted sql params) :=
  scanned_scan h.nil_notMem 0 sql.toList

theorem Nameable.original_counted (h : Nameable sql params) : original (counted sql params) = sql.toList :=
  original_scan h.nil_notMem 0 sql.toList

theorem isBefore_sortedNodes_iff (h : Nameable sql params)
    (hmatched : Matched (sortedNodes sql.toList params) (counted sql params)) {name' name : List Char}
    (hname' : name' ∈ names params) (hname : name ∈ names params)
    : IsBefore ((sortedNodes sql.toList params).map (·.key)) name' name ↔ FoundEarlier sql name' name := by
  have hfound := h.found
  have hstrict := hmatched.strict (nodup_names params) h.nil_notMem h.scanned (h.original_counted.symm ▸ hfound)
  rw [isBefore_iff hstrict]
  constructor
  . rintro ⟨node, hnode, rfl, hbefore⟩
    refine ⟨node.position, (hfound.mem_iff.mp hnode).2, fun other hother => ?_⟩
    exact hbefore ⟨name, other⟩ (hfound.mem_iff.mpr ⟨hname, hother⟩) rfl
  . rintro ⟨pos, hpos, hbefore⟩
    refine ⟨⟨name', pos⟩, hfound.mem_iff.mpr ⟨hname', hpos⟩, rfl, ?_⟩
    rintro other hother rfl
    exact hbefore other.position (hfound.mem_iff.mp hother).2

theorem separated_iff (h : Nameable sql params)
    : Separated sql params
        ↔ Matched (sortedNodes sql.toList params) (counted sql params)
          ∧ Sheltered (IsBefore ((sortedNodes sql.toList params).map (·.key))) (names params)
            (counted sql params) := by
  have hfound := h.found
  have hmatched : Matched (sortedNodes sql.toList params) (counted sql params)
      ↔ ∀ name ∈ names params, ∀ pos ∈ positions name 0 0 sql.toList, ∃ node ∈ nodes 0 (counted sql params),
        node.key = name ∧ pos ≤ node.position ∧ node.position < pos + name.length := by
    constructor
    . intro hmatched name hname pos hpos
      exact hmatched ⟨name, pos⟩ (hfound.mem_iff.mpr ⟨hname, hpos⟩)
    . intro hall node hnode
      obtain ⟨hname, hpos⟩ := hfound.mem_iff.mp hnode
      exact hall node.key hname node.position hpos
  rw [Separated, ← hmatched]
  refine and_congr_right fun hmatched => Sheltered.congr fun other hother name hname => ?_
  exact (isBefore_sortedNodes_iff h hmatched (h.scanned.key_of_mem_nodes hother).2 hname).symm

theorem executeMap_eq (h : Nameable sql params)
    : executeMap sql params
        = (String.ofList ((marks ((sortedNodes sql.toList params).map (·.key)) (sql.toList.map .element)).map
            (Piece.shown '?')),
          (sortedNodes sql.toList params).map fun node => params.get (String.ofList node.key)) := by
  have hkeys : ∀ key ∈ (sortedNodes sql.toList params).map (·.key), key ∈ names params := by
    intro key hkey
    obtain ⟨node, hnode, rfl⟩ := List.mem_map.mp hkey
    exact (h.found.mem_iff.mp hnode).1
  have hunmarked : ∀ key ∈ (sortedNodes sql.toList params).map (·.key), '?' ∉ key := by
    intro key hkey
    obtain ⟨name, hname, rfl⟩ := List.mem_map.mp (hkeys key hkey)
    exact h.unmarked name hname
  have hshown : (sql.toList.map Piece.element).map (Piece.shown '?') = sql.toList := by
    rw [List.map_map]
    exact List.map_id _
  rw [executeMap, replaceLoop_eq, shown_marks (fun hnil => h.nil_notMem (hkeys [] hnil)) hunmarked, hshown]
  rfl

/-- The statement is the right one exactly if the names are separated in its text. -/
theorem namedCorrect_iff (h : Nameable sql params) : NamedCorrect sql params ↔ Separated sql params := by
  have hnil := h.nil_notMem
  have hnodup := nodup_names params
  have hfound : Found (names params) (original (counted sql params)) (sortedNodes sql.toList params) :=
    h.original_counted.symm ▸ h.found
  have hkeys : ∀ key ∈ (sortedNodes sql.toList params).map (·.key), key ∈ names params := by
    intro key hkey
    obtain ⟨node, hnode, rfl⟩ := List.mem_map.mp hkey
    exact (hfound.mem_iff.mp hnode).1
  have hnames : ∀ hmatched : Matched (sortedNodes sql.toList params) (counted sql params),
      ∀ word, .word word ∈ counted sql params → word ∈ (sortedNodes sql.toList params).map (·.key) := by
    intro hmatched word hword
    rw [hmatched.map_key hnodup hnil h.scanned hfound]
    obtain ⟨before, after, hcounted⟩ := List.append_of_mem hword
    exact List.mem_map.mpr ⟨⟨word, _⟩, mem_nodes.mpr ⟨before, after, hcounted, rfl⟩, rfl⟩
  rw [NamedCorrect, executeMap_eq h, separated_iff h, Prod.mk.injEq, String.ofList_inj]
  constructor
  . rintro ⟨htext, hvalues⟩
    have hlength := congrArg List.length hvalues
    rw [List.length_map, List.length_map] at hlength
    have hmatched := matched_of_length hnodup hnil h.scanned hfound hlength
    have hcounted := hmatched.counted hnil hfound
    refine ⟨hmatched, (marks_eq_iff h.scanned hnil hkeys (hnames hmatched) h.original_counted).mp ?_⟩
    refine h.scanned.eq_of_shown_eq (fun word hword key hkey => hcounted.inside hnil hword hkey) ?_ ?_ ?_ htext
    . intro word hword
      rcases mem_of_word_marks (fun hmem => hnil (hkeys [] hmem)) hword with hmem | hmem
      . exact hkeys word hmem
      . simp at hmem
    . rw [h.original_counted]
      exact h.sql
    . rw [original_marks (fun hmem => hnil (hkeys [] hmem)), original_map_element, h.original_counted]
  . rintro ⟨hmatched, hsheltered⟩
    have hmarks := (marks_eq_iff h.scanned hnil hkeys (hnames hmatched) h.original_counted).mpr hsheltered
    refine ⟨by rw [hmarks], ?_⟩
    have hvalues := congrArg (List.map fun key => params.get (String.ofList key))
      (hmatched.map_key hnodup hnil h.scanned hfound)
    rw [List.map_map, List.map_map] at hvalues
    exact hvalues

theorem separated_of_apart (h : Nameable sql params) (hapart : Apart (names params) (counted sql params))
    : Separated sql params := by
  have hfound : Found (names params) (original (counted sql params)) (sortedNodes sql.toList params) :=
    h.original_counted.symm ▸ h.found
  refine (separated_iff h).mpr ⟨?_, hapart.sheltered _⟩
  exact (hapart.counted h.nil_notMem h.scanned).matched h.nil_notMem hfound

end Named

def twoNames : ColumnMap Nat where
  entries := [(":level", 7), (":id", 1)]
  nodup := by decide

theorem namedCorrect_twoNames : NamedCorrect "SET a = :level, b = :id, c = :level" twoNames := by
  have hnameable : Nameable "SET a = :level, b = :id, c = :level" twoNames := by
    constructor <;> decide
  exact (namedCorrect_iff hnameable).mpr (separated_of_apart hnameable (by unfold Apart; decide))

def nameInName : ColumnMap Nat where
  entries := [(":a", 1), (":ab", 2)]
  nodup := by decide

theorem namedCorrect_counterexample
    : ¬ ∀ (sql : String) (params : ColumnMap Nat), Nameable sql params → NamedCorrect sql params := by
  intro hevery
  have hnameable : Nameable ":ab" nameInName := by
    constructor <;> decide
  have hvalues := congrArg (fun statement => statement.2.length) (hevery ":ab" nameInName hnameable)
  simp only [executeMap_eq hnameable, List.length_map] at hvalues
  rw [hnameable.found.perm.length_eq] at hvalues
  exact absurd hvalues (by decide)

end DBUtil

end WzGame
