/-
# A page of tables under headings can be taken apart

The reference page is a front and, under each heading, one table. Its lines are
cut at the headings (`parts`), and of the lines under a heading those that
start with a bar are a table: the names of its columns, a ruler and the rows.
Taking a page of tables apart gives its headings with their rows
(`parts_tables`), and each heading has exactly one blank line in front of it
(`apart_tables`). A section added to a page that ends in one blank line is one
more table behind its lines (`startSection_table`).

Key definitions: `OpensSection`, `InTable`, `Apart`, `tables`, `Table`.
Key theorems: `startSection_table`, `parts_tables`, `apart_tables`.
-/
import GrammarSync.Proofs.SectionBreaks
import GrammarSync.Proofs.TableRows

namespace GrammarSync
namespace Reference

/-- A line that opens a section. -/
def OpensSection (l : String) : Prop :=
  "## ".toList <+: l.toList

instance : DecidablePred OpensSection :=
  fun _ => inferInstanceAs (Decidable (_ <+: _))

/-- A line of a table. -/
def InTable (l : String) : Prop :=
  ['|'] <+: l.toList

instance : DecidablePred InTable :=
  fun _ => inferInstanceAs (Decidable (_ <+: _))

/-- A line that ends in a character that can be seen. -/
def Solid (l : String) : Prop :=
  ∃ c, l.toList.getLast? = some c ∧ c.isWhitespace = false

/-- Lines that end in exactly one blank line. -/
def Closed (ls : List String) : Prop :=
  ∃ front l, ls = front ++ [l, ""] ∧ Solid l

/-- Lines in which each heading has exactly one blank line in front of it. -/
def Apart (ls : List String) : Prop :=
  ∀ front heading rest, ls = front ++ heading :: rest → OpensSection heading → Closed front

/-- The lines in front of the first heading, and each heading with the lines under it. -/
def parts : List String → List String × List (String × List String)
  | [] => ([], [])
  | l :: rest =>
    if OpensSection l then ([], (l, (parts rest).1) :: (parts rest).2)
    else (l :: (parts rest).1, (parts rest).2)

/-- The rows of the table in some lines, without the names of the columns and the ruler. -/
def tableRows (ls : List String) : List (List String) :=
  ((ls.filter (InTable ·)).drop 2).map cells

/-- The headings of a page, each with the rows of its table. -/
def tables (page : String) : List (String × List (List String)) :=
  (parts (lines page)).2.map fun p => (p.1, tableRows p.2)

/-! ### Tables -/

/-- A table under its heading. -/
structure Table where
  heading : String
  columns : List String
  ruler : String
  rows : List (List String)

/-- The lines of the table itself. -/
def Table.grid (b : Table) : List String :=
  line b.columns :: b.ruler :: b.rows.map line

/-- What stands under the heading: a blank line, the table and a blank line. -/
def Table.under (b : Table) : List String :=
  [""] ++ b.grid ++ [""]

/-- The lines of a section. -/
def Table.lines (b : Table) : List String :=
  b.heading :: b.under

/-- A line that can stand between the names of the columns and the rows. -/
def Ruler (l : String) : Prop :=
  InTable l ∧ Solid l ∧ '\n' ∉ l.toList

/-- A table that can be read back: its heading opens a section, its ruler is a line of a table, its
rows have cells, and all texts keep to their cells and lines. -/
structure Table.Sound (b : Table) : Prop where
  heading : OpensSection b.heading ∧ '\n' ∉ b.heading.toList
  columns : ∀ c ∈ b.columns, Cell c
  ruler : Ruler b.ruler
  rows : ∀ row ∈ b.rows, row ≠ [] ∧ ∀ c ∈ row, Cell c

theorem inTable_line (row : List String) : InTable (line row) := by
  rw [InTable, toList_line]
  exact List.prefix_append ['|'] _

theorem solid_line (row : List String) : Solid (line row) := by
  refine ⟨'|', List.getLast?_eq_some_iff.mpr ?_, by decide⟩
  refine ⟨'|' :: ' ' :: ((" | ".intercalate row).toList ++ [' ']), ?_⟩
  rw [toList_line]
  simp only [List.cons_append, List.append_assoc, List.nil_append]

theorem Solid.settled_append {l : String} (h : Solid l) (s : String) : Settled (s ++ l) := by
  obtain ⟨c, hlast, hc⟩ := h
  have hne : l.toList ≠ [] := fun hnil => by simp [hnil] at hlast
  rw [Settled, String.toList_append, List.getLast?_append_of_ne_nil _ hne, hlast]
  rintro ⟨⟩
  exact absurd hc (by decide)

theorem InTable.not_opensSection {l : String} (h : InTable l) : ¬OpensSection l := by
  obtain ⟨rest, hrest⟩ := h
  rintro ⟨others, hothers⟩
  rw [← hrest] at hothers
  have hhead : '#' = '|' := (List.cons.inj hothers).1
  exact absurd hhead (by decide)

/-! ### Adding a section -/

/-- A page that ends in one blank line ends in two line breaks. -/
theorem Closed.exists_settled {ls : List String} (h : Closed ls) :
    ∃ body, Settled body ∧ unlines ls = body ++ lineBreaks 2 := by
  obtain ⟨front, l, rfl, hl⟩ := h
  refine ⟨unlines front ++ l, hl.settled_append _, ?_⟩
  rw [unlines_append, unlines_pair, lineBreaks_two, String.append_assoc]

/-- Such a page is left as it is when it is trimmed. -/
theorem Closed.trimLineBreaks_unlines {ls : List String} (h : Closed ls) :
    trimLineBreaks (unlines ls) = unlines ls ∧ endingLineBreaks (unlines ls) = 2 := by
  obtain ⟨body, hbody, htext⟩ := h.exists_settled
  rw [htext]
  exact ⟨trimLineBreaks_append hbody 2, endingLineBreaks_append hbody 2⟩

/-- A heading opens a section behind the page as it is. -/
theorem startSection_unlines {ls : List String} (h : Closed ls) (heading : String) :
    startSection (unlines ls) heading = unlines (ls ++ [heading, ""]) := by
  obtain ⟨body, hbody, htext⟩ := h.exists_settled
  have hne : body ++ lineBreaks 2 ≠ "" :=
    fun hempty => lineBreaks_succ_ne 1 (String.append_eq_empty_iff.mp hempty).2
  rw [unlines_append, unlines_pair, htext, startSection_append hbody hne, lineBreaks_two,
    String.append_assoc]

theorem join_map_row (rows : List (List String)) :
    String.join (rows.map row) = unlines (rows.map line) := by
  rw [unlines, List.map_map]
  exact congrArg String.join (List.map_congr_left fun cells _ => row_eq cells)

/-- A section behind a page is one more table behind its lines. -/
theorem startSection_table {ls : List String} (h : Closed ls) (b : Table) :
    startSection (unlines ls) b.heading ++ row b.columns ++ (b.ruler ++ "\n") ++
      String.join (b.rows.map row) ++ "\n" = unlines (ls ++ b.lines) := by
  have hlines : b.lines = [b.heading, ""] ++ ([line b.columns, b.ruler] ++
      (b.rows.map line ++ [""])) := rfl
  have hend : unlines [""] = "\n" := by decide
  rw [startSection_unlines h, join_map_row, hlines, ← List.append_assoc, unlines_append _ (_ ++ _),
    unlines_append [_, _], unlines_append (b.rows.map line), hend, row_eq, unlines_cons,
    unlines_cons, unlines_nil]
  simp only [String.append_assoc, String.append_empty]

/-- A table ends a page with one blank line. -/
theorem Table.Sound.closed {b : Table} (h : b.Sound) (ls : List String) :
    Closed (ls ++ b.lines) := by
  have hgrid : ∃ front l, b.grid = front ++ [l] ∧ Solid l := by
    rcases List.eq_nil_or_concat' b.rows with hnil | ⟨rows, row, hrows⟩
    · exact ⟨[line b.columns], b.ruler, by rw [Table.grid, hnil]; rfl, h.ruler.2.1⟩
    · refine ⟨line b.columns :: b.ruler :: rows.map line, line row, ?_, solid_line row⟩
      rw [Table.grid, hrows, List.map_append]
      rfl
  obtain ⟨front, l, hfront, hl⟩ := hgrid
  refine ⟨ls ++ b.heading :: "" :: front, l, ?_, hl⟩
  rw [Table.lines, Table.under, hfront]
  simp

/-! ### Taking a page apart -/

theorem Table.Sound.inTable {b : Table} (h : b.Sound) {l : String} (hl : l ∈ b.grid) :
    InTable l := by
  rcases List.mem_cons.mp hl with rfl | hl
  · exact inTable_line _
  rcases List.mem_cons.mp hl with rfl | hl
  · exact h.ruler.1
  · obtain ⟨row, -, rfl⟩ := List.mem_map.mp hl
    exact inTable_line row

theorem Table.Sound.not_opensSection {b : Table} (h : b.Sound) {l : String} (hl : l ∈ b.under) :
    ¬OpensSection l := by
  have hblank : ¬OpensSection "" := by decide
  rcases List.mem_append.mp hl with hl | hl
  · rcases List.mem_append.mp hl with hl | hl
    · rwa [List.mem_singleton.mp hl]
    · exact (h.inTable hl).not_opensSection
  · rwa [List.mem_singleton.mp hl]

/-- The rows are read back, whatever stands behind the table that is no table. -/
theorem Table.Sound.tableRows_under {b : Table} (h : b.Sound) {back : List String}
    (hback : ∀ l ∈ back, ¬InTable l) : tableRows (b.under ++ back) = b.rows := by
  have hblank : ([""] : List String).filter (InTable ·) = [] := by decide
  have hgrid : b.grid.filter (InTable ·) = b.grid :=
    List.filter_eq_self.mpr fun l hl => decide_eq_true (h.inTable hl)
  have hnone : back.filter (InTable ·) = [] :=
    List.filter_eq_nil_iff.mpr fun l hl => by simpa using hback l hl
  have hcells : ∀ row ∈ b.rows, (cells ∘ line) row = id row :=
    fun row hrow => cells_line (h.rows row hrow).1 (h.rows row hrow).2
  rw [tableRows, Table.under, List.filter_append, List.filter_append, List.filter_append, hblank,
    hgrid, hnone, List.append_nil, List.append_nil, List.nil_append]
  show (b.rows.map line).map cells = b.rows
  rw [List.map_map, List.map_congr_left hcells, List.map_id]

theorem Table.Sound.unbroken {b : Table} (h : b.Sound) {l : String} (hl : l ∈ b.lines) :
    '\n' ∉ l.toList := by
  have hblank : '\n' ∉ "".toList := by decide
  have hline : ∀ row : List String, (∀ c ∈ row, Cell c) → '\n' ∉ (line row).toList :=
    fun row hrow => not_mem_line (by decide) fun c hc => (hrow c hc).2
  simp only [Table.lines, Table.under, Table.grid, List.mem_cons, List.mem_append, List.mem_map,
    List.not_mem_nil, or_false] at hl
  rcases hl with rfl | (rfl | rfl | rfl | ⟨row, hrow, rfl⟩) | rfl
  · exact h.heading.2
  · exact hblank
  · exact hline _ h.columns
  · exact h.ruler.2.2
  · exact hline row (h.rows row hrow).2
  · exact hblank

theorem parts_append {front : List String} (h : ∀ l ∈ front, ¬OpensSection l) (rest : List String) :
    parts (front ++ rest) = (front ++ (parts rest).1, (parts rest).2) := by
  induction front with
  | nil => rfl
  | cons l front ih =>
    have hl : ¬OpensSection l := h l List.mem_cons_self
    rw [List.cons_append, parts, if_neg hl, ih fun m hm => h m (List.mem_cons_of_mem l hm)]
    rfl

theorem Table.Sound.parts_lines {b : Table} (h : b.Sound) (rest : List String) :
    parts (b.lines ++ rest) = ([], (b.heading, b.under ++ (parts rest).1) :: (parts rest).2) := by
  rw [Table.lines, List.cons_append, parts, if_pos h.heading.1,
    parts_append fun l hl => h.not_opensSection hl]

/-- Headings stand apart in two parts of a page if they do in the first and each heading of the
second has one blank line in front of it. -/
theorem Apart.append {front back : List String} (hfront : Apart front)
    (hback : ∀ mid heading rest, back = mid ++ heading :: rest → OpensSection heading →
      Closed (front ++ mid)) : Apart (front ++ back) := by
  intro before heading rest heq hheading
  rcases List.append_eq_append_iff.mp heq with ⟨mid, rfl, hmid⟩ | ⟨mid, rfl, hmid⟩
  · exact hback mid heading rest hmid hheading
  · cases mid with
    | nil => simpa using hback [] heading rest hmid.symm hheading
    | cons l mid =>
      obtain ⟨rfl, -⟩ := List.cons.inj hmid
      exact hfront before heading mid rfl hheading

theorem Table.Sound.apart {b : Table} (h : b.Sound) {front : List String} (hfront : Apart front)
    (hclosed : Closed front) : Apart (front ++ b.lines) := by
  apply hfront.append
  intro mid heading rest heq hheading
  cases mid with
  | nil => rwa [List.append_nil]
  | cons l mid =>
    have hunder : b.under = mid ++ heading :: rest := (List.cons.inj heq).2
    have hmem : heading ∈ b.under := hunder ▸ List.mem_append_right _ List.mem_cons_self
    exact absurd hheading (h.not_opensSection hmem)

variable {bs : List Table} (h : ∀ b ∈ bs, b.Sound)
include h

/-- The lines of a page of tables. -/
theorem lines_tables {front : List String} (hfront : ∀ l ∈ front, '\n' ∉ l.toList) :
    lines (unlines (front ++ bs.flatMap Table.lines)) =
      front ++ bs.flatMap Table.lines ++ [""] := by
  apply lines_unlines
  intro l hl
  rcases List.mem_append.mp hl with hl | hl
  · exact hfront l hl
  · obtain ⟨b, hb, hlines⟩ := List.mem_flatMap.mp hl
    exact (h b hb).unbroken hlines

/-- Tables, taken apart: nothing of a table stands in front of the first heading, and the rows stand
under theirs. -/
theorem parts_tables :
    (∀ l ∈ (parts (bs.flatMap Table.lines ++ [""])).1, ¬InTable l) ∧
    (parts (bs.flatMap Table.lines ++ [""])).2.map (fun p => (p.1, tableRows p.2)) =
      bs.map fun b => (b.heading, b.rows) := by
  induction bs with
  | nil => exact ⟨by decide, rfl⟩
  | cons b bs ih =>
    have hb : b.Sound := h b List.mem_cons_self
    obtain ⟨hfront, hparts⟩ := ih fun c hc => h c (List.mem_cons_of_mem b hc)
    rw [List.flatMap_cons, List.append_assoc, hb.parts_lines]
    refine ⟨fun l hl => absurd hl List.not_mem_nil, ?_⟩
    rw [List.map_cons, hb.tableRows_under hfront, hparts, List.map_cons]

/-- Tables behind a page whose headings stand apart: all headings stand apart. -/
theorem apart_tables {front : List String} (hapart : Apart front) (hclosed : Closed front) :
    Apart (front ++ bs.flatMap Table.lines ++ [""]) := by
  induction bs generalizing front with
  | nil =>
    rw [List.flatMap_nil, List.append_nil]
    apply hapart.append
    intro mid heading rest heq hheading
    have hmem : heading ∈ [""] := heq ▸ List.mem_append_right _ List.mem_cons_self
    rw [List.mem_singleton.mp hmem] at hheading
    exact absurd hheading (by decide)
  | cons b bs ih =>
    have hb : b.Sound := h b List.mem_cons_self
    rw [List.flatMap_cons, ← List.append_assoc front]
    have hrest : ∀ c ∈ bs, c.Sound := fun c hc => h c (List.mem_cons_of_mem b hc)
    -- the first table goes to the front, which stays apart and closed
    exact ih hrest (hb.apart hapart hclosed) (hb.closed front)

end Reference
end GrammarSync
