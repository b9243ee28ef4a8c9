import EpochRewards.Proofs.Records
import EpochRewards.Store.Files

/-!
The texts of tables.

A row is written on a line of its own, whatever its strings hold: no line ends within it and no
carriage return stands at its end. So the lines of a text of rows are the forms of the rows.
-/

namespace EpochRewards.FileStore

open Json (Visible Plain)

lemma lines_line {cs : List Char} (h : ∀ c ∈ cs, c ≠ '\n') (line rest : List Char) :
    lines (cs ++ '\n' :: rest) line
      = (dropReturn (cs.reverse ++ line)).reverse :: lines rest [] := by
  induction cs generalizing line with
  | nil => simp [lines]
  | cons c cs ih =>
    have hc : c ≠ '\n' := h c List.mem_cons_self
    have hrest := ih (fun d hd => h d (List.mem_cons_of_mem _ hd)) (c :: line)
    simp only [List.cons_append, lines, if_neg hc, hrest, List.reverse_cons, List.append_assoc,
      List.nil_append]

lemma dropReturn_visible {cs : List Char} (h : Visible cs) : dropReturn cs = cs := by
  cases cs with
  | nil => rfl
  | cons c cs =>
    have hc : c ≠ '\r' := by
      rintro rfl
      exact absurd (h '\r' List.mem_cons_self) (by decide)
    unfold dropReturn
    split
    · next heq => exact absurd (List.cons.inj heq).1 hc
    · rfl

/-- A line of visible characters is read as it is. -/
lemma lines_visible {cs : List Char} (h : Visible cs) (rest : List Char) :
    lines (cs ++ '\n' :: rest) [] = cs :: lines rest [] := by
  have hfeed : ∀ c ∈ cs, c ≠ '\n' := by
    rintro c hc rfl
    exact absurd (h '\n' hc) (by decide)
  have hreverse : Visible cs.reverse := fun c hc => h c (List.mem_reverse.1 hc)
  rw [lines_line hfeed, List.append_nil, dropReturn_visible hreverse, List.reverse_reverse]

lemma lines_rows {rows : List Row} (h : ∀ row ∈ rows, row.Sized) :
    lines (rows.flatMap renderRow) [] = rows.map fun row => row.encode.render := by
  induction rows with
  | nil => rfl
  | cons row rows ih =>
    have hrow := Json.visible_render (h row List.mem_cons_self).plain
    have hrest := ih fun x hx => h x (List.mem_cons_of_mem _ hx)
    rw [List.flatMap_cons, renderRow, List.append_assoc, List.singleton_append,
      lines_visible hrow, hrest, List.map_cons]

lemma parseRow_render {row : Row} (h : row.Sized) :
    parseRow row.table row.encode.render = some row := by
  rw [parseRow, Json.parseChars_render h.plain]
  exact h.decodeAs_encode

lemma render_append (rows more : List Row) :
    render (rows ++ more) = render rows ++ render more := by
  rw [render, List.flatMap_append, String.ofList_append]
  rfl

/-- **A text of rows is read as the rows of its table.** -/
theorem parse_render {t : Table} {rows : List Row} (h : ∀ row ∈ rows, row.Sized ∧ row.table = t) :
    parse t (render rows) = .ok rows := by
  have hlines := lines_rows fun row hrow => (h row hrow).1
  have hfull : ∀ line ∈ rows.map fun row => row.encode.render, (!line.isEmpty) = true := by
    intro line hline
    obtain ⟨row, hrow, rfl⟩ := List.mem_map.1 hline
    obtain ⟨c, cs, hc, -⟩ := Json.render_starts (h row hrow).1.plain
    rw [hc]
    rfl
  have hrows : (rows.map fun row => row.encode.render).mapM (parseRow t) = some rows := by
    clear hlines hfull
    induction rows with
    | nil => rfl
    | cons row rows ih =>
      obtain ⟨hsized, rfl⟩ := h row List.mem_cons_self
      have hrest := ih fun x hx => h x (List.mem_cons_of_mem _ hx)
      simp [parseRow_render hsized, hrest]
  rw [parse, render, String.toList_ofList, hlines, List.filter_eq_self.2 hfull, hrows]

end EpochRewards.FileStore
