/-
# Lines, rows and lists of a page can be read back

A page is made of lines, its tables of rows, a row of cells, and a cell may
list texts between backticks. Each of these is a join of parts that do not
hold the separator, so that cutting at the separator gives the parts again:
the lines at the line breaks (`lines_unlines`), the cells at the bars
(`cells_line`), and the listed texts as what stands between every other pair
of backticks (`quoted_codeList`), whatever commas and blanks they hold.

Key definitions: `Tabular`, `lines`, `line`, `cells`, `quoted`.
Key theorems: `lines_unlines`, `cells_line`, `quoted_codeList`.
-/
import GrammarSync.Proofs.Pointer
import GrammarSync.Scope.Reference

namespace GrammarSync
namespace Reference

open Text

/-- The character that texts of code stand between. -/
def tick : Char :=
  '\x60'

/-- A text that can stand in a table: it has no backtick, no bar and no line break. -/
def Tabular (s : String) : Prop :=
  tick ∉ s.toList ∧ '|' ∉ s.toList ∧ '\n' ∉ s.toList

instance (s : String) : Decidable (Tabular s) :=
  inferInstanceAs (Decidable (_ ∧ _))

/-- A text that keeps to its cell: it has no bar and no line break. -/
def Cell (s : String) : Prop :=
  '|' ∉ s.toList ∧ '\n' ∉ s.toList

instance (s : String) : Decidable (Cell s) :=
  inferInstanceAs (Decidable (_ ∧ _))

/-- A join holds no character that neither the separator nor a part holds. -/
theorem not_mem_intercalate {c : Char} {sep : String} {ss : List String} (hsep : c ∉ sep.toList)
    (h : ∀ s ∈ ss, c ∉ s.toList) : c ∉ (sep.intercalate ss).toList := by
  induction ss with
  | nil => exact List.not_mem_nil
  | cons s rest ih =>
    have hs : c ∉ s.toList := h s List.mem_cons_self
    have hrest := ih fun t ht => h t (List.mem_cons_of_mem s ht)
    cases rest with
    | nil => rwa [String.intercalate_singleton]
    | cons t rest =>
      rw [String.intercalate_cons_cons, String.toList_append, String.toList_append,
        List.mem_append, List.mem_append]
      rintro ((hc | hc) | hc)
      · exact hs hc
      · exact hsep hc
      · exact hrest hc

/-! ### Lines -/

/-- The lines of a text. What stands behind the last line break is a line, too. -/
def lines (text : String) : List String :=
  (pieces '\n' text.toList).map String.ofList

/-- Lines, each with a line break behind it. -/
def unlines (ls : List String) : String :=
  String.join (ls.map (· ++ "\n"))

theorem unlines_nil : unlines [] = "" := by
  rw [unlines, List.map_nil, String.join_nil]

theorem unlines_cons (l : String) (ls : List String) :
    unlines (l :: ls) = l ++ "\n" ++ unlines ls := by
  rw [unlines, List.map_cons, String.join_cons, unlines]

theorem unlines_append (ls ms : List String) : unlines (ls ++ ms) = unlines ls ++ unlines ms := by
  rw [unlines, List.map_append, String.join_append, unlines, unlines]

/-- Two line breaks end a line and the blank line behind it. -/
theorem unlines_pair (l : String) : unlines [l, ""] = l ++ "\n\n" := by
  rw [unlines_cons, String.append_assoc]
  rfl

/-- The lines of a text that is made of lines are these, and the empty one at its end. -/
theorem lines_unlines {ls : List String} (h : ∀ l ∈ ls, '\n' ∉ l.toList) :
    lines (unlines ls) = ls ++ [""] := by
  induction ls with
  | nil => rfl
  | cons l ls ih =>
    have hl : '\n' ∉ l.toList := h l List.mem_cons_self
    have htext : (unlines (l :: ls)).toList = l.toList ++ '\n' :: (unlines ls).toList := by
      rw [unlines_cons, String.toList_append, String.toList_append, List.append_assoc]
      rfl
    have hrest := ih fun m hm => h m (List.mem_cons_of_mem l hm)
    rw [lines] at hrest
    rw [lines, htext, pieces_append hl, List.map_cons, hrest, String.ofList_toList,
      List.cons_append]

/-! ### Lists of texts -/

/-- Every other part, from the second on. -/
def between : List (List Char) → List (List Char)
  | _ :: inside :: rest => inside :: between rest
  | _ => []

/-- The texts that a cell lists between backticks. -/
def quoted (cell : String) : List String :=
  (between (pieces tick cell.toList)).map String.ofList

theorem toList_code (s : String) : (code s).toList = tick :: (s.toList ++ [tick]) := by
  rw [code, String.toList_append, String.toList_append, List.append_assoc]
  rfl

theorem codeList_singleton (s : String) : codeList [s] = code s := by
  rw [codeList, List.map_singleton, String.intercalate_singleton]

theorem codeList_cons_cons (s t : String) (rest : List String) :
    codeList (s :: t :: rest) = code s ++ ", " ++ codeList (t :: rest) := by
  rw [codeList, List.map_cons, List.map_cons, String.intercalate_cons_cons, codeList, List.map_cons]

theorem not_mem_codeList {c : Char} {items : List String} (htick : c ≠ tick)
    (hsep : c ∉ ", ".toList) (h : ∀ s ∈ items, c ∉ s.toList) : c ∉ (codeList items).toList := by
  apply not_mem_intercalate hsep
  intro part hpart
  obtain ⟨s, hs, rfl⟩ := List.mem_map.mp hpart
  simpa [toList_code, htick] using h s hs

theorem cell_codeList {items : List String} (h : ∀ s ∈ items, Tabular s) : Cell (codeList items) :=
  ⟨not_mem_codeList (by decide) (by decide) fun s hs => (h s hs).2.1,
    not_mem_codeList (by decide) (by decide) fun s hs => (h s hs).2.2⟩

theorem cell_code {s : String} (h : Tabular s) : Cell (code s) := by
  rw [← codeList_singleton]
  exact cell_codeList fun t ht => by rwa [List.mem_singleton.mp ht]

/-- The listed texts stand between the backticks, whatever stands in front of the list. -/
theorem between_codeList {items : List String} (h : ∀ s ∈ items, tick ∉ s.toList)
    {front : List Char} (hfront : tick ∉ front) :
    between (pieces tick (front ++ (codeList items).toList)) = items.map String.toList := by
  induction items generalizing front with
  | nil =>
    have hempty : (codeList []).toList = [] := rfl
    rw [hempty, List.append_nil, pieces_of_not_mem hfront, List.map_nil]
    rfl
  | cons s rest ih =>
    have hs : tick ∉ s.toList := h s List.mem_cons_self
    have hrest := @ih fun t ht => h t (List.mem_cons_of_mem s ht)
    -- behind the first text comes the end, or a comma and the list of the others
    have htail : ∃ back, tick ∉ back ∧ (codeList (s :: rest)).toList =
        tick :: (s.toList ++ tick :: (back ++ (codeList rest).toList)) := by
      cases rest with
      | nil =>
        refine ⟨[], List.not_mem_nil, ?_⟩
        rw [codeList_singleton, toList_code]
        rfl
      | cons t rest =>
        refine ⟨", ".toList, by decide, ?_⟩
        rw [codeList_cons_cons, String.toList_append, String.toList_append, toList_code]
        simp only [List.append_assoc, List.cons_append, List.nil_append]
    obtain ⟨back, hback, htoList⟩ := htail
    rw [htoList, pieces_append hfront, pieces_append hs, between, hrest hback, List.map_cons]

theorem quoted_codeList {items : List String} (h : ∀ s ∈ items, tick ∉ s.toList) :
    quoted (codeList items) = items := by
  have hbetween := between_codeList h (List.not_mem_nil (a := tick))
  rw [List.nil_append] at hbetween
  rw [quoted, hbetween, map_ofList_toList]

theorem quoted_code {s : String} (h : tick ∉ s.toList) : quoted (code s) = [s] := by
  rw [← codeList_singleton]
  exact quoted_codeList fun t ht => by rwa [List.mem_singleton.mp ht]

/-! ### Rows -/

/-- The line of a row. -/
def line (cells : List String) : String :=
  "| " ++ " | ".intercalate cells ++ " |"

theorem row_eq (cells : List String) : row cells = line cells ++ "\n" := by
  rw [row, line, String.append_assoc, String.append_assoc, String.append_assoc]
  rfl

theorem toList_line (row : List String) :
    (line row).toList = '|' :: (' ' :: ((" | ".intercalate row).toList ++ [' ', '|'])) := by
  rw [line, String.toList_append, String.toList_append, List.append_assoc]
  rfl

theorem not_mem_line {c : Char} {row : List String} (hsep : c ∉ " | ".toList)
    (h : ∀ cell ∈ row, c ∉ cell.toList) : c ∉ (line row).toList := by
  have hrow : c ∉ (" | ".intercalate row).toList := not_mem_intercalate hsep h
  have hmarks : c ≠ ' ' ∧ c ≠ '|' :=
    ⟨fun hc => hsep (by rw [hc]; decide), fun hc => hsep (by rw [hc]; decide)⟩
  rw [toList_line]
  simp only [List.mem_cons, List.mem_append, List.not_mem_nil, or_false, not_or]
  exact ⟨hmarks.2, hmarks.1, hrow, hmarks⟩

/-- The cells of a row: what stands between its bars, without a blank on each side. -/
def cells (line : String) : List String :=
  (pieces '|' line.toList).tail.dropLast.map fun cell => String.ofList cell.tail.dropLast

/-- A cell with a blank on each side. -/
def padded (cell : String) : List Char :=
  ' ' :: (cell.toList ++ [' '])

theorem trim_padded (cell : String) : String.ofList (padded cell).tail.dropLast = cell := by
  rw [padded, List.tail_cons, List.dropLast_concat, String.ofList_toList]

/-- Cut at its bars, what stands behind the first bar of a row is its cells and an empty end. -/
theorem pieces_cells {row : List String} (hne : row ≠ []) (h : ∀ c ∈ row, '|' ∉ c.toList) :
    pieces '|' (' ' :: ((" | ".intercalate row).toList ++ [' ', '|'])) =
      row.map padded ++ [[]] := by
  induction row with
  | nil => exact absurd rfl hne
  | cons c rest ih =>
    have hc : '|' ∉ padded c := by
      simpa [padded] using h c List.mem_cons_self
    cases rest with
    | nil =>
      have hlast : ' ' :: ((" | ".intercalate [c]).toList ++ [' ', '|']) =
          padded c ++ '|' :: [] := by
        rw [String.intercalate_singleton, padded]
        simp
      rw [hlast, pieces_append hc]
      rfl
    | cons d rest =>
      have hfirst : ' ' :: ((" | ".intercalate (c :: d :: rest)).toList ++ [' ', '|']) =
          padded c ++ '|' :: (' ' :: ((" | ".intercalate (d :: rest)).toList ++ [' ', '|'])) := by
        rw [String.intercalate_cons_cons, padded]
        simp
      have hrest := ih (List.cons_ne_nil d rest) fun e he => h e (List.mem_cons_of_mem c he)
      rw [hfirst, pieces_append hc, hrest]
      rfl

/-- A row is read back from its line. -/
theorem cells_line {row : List String} (hne : row ≠ []) (h : ∀ c ∈ row, Cell c) :
    cells (line row) = row := by
  have hline : (line row).toList =
      [] ++ '|' :: (' ' :: ((" | ".intercalate row).toList ++ [' ', '|'])) := toList_line row
  have hid : (fun cell : String => String.ofList (padded cell).tail.dropLast) = id :=
    funext trim_padded
  rw [cells, hline, pieces_append List.not_mem_nil, pieces_cells hne fun c hc => (h c hc).1,
    List.tail_cons, List.dropLast_concat, List.map_map, Function.comp_def, hid, List.map_id]

end Reference
end GrammarSync
