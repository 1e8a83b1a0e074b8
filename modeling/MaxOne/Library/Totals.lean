import MaxOne.Library.Table

/-!
# Totals over a table

The sum of a quantity over the rows of a table, and what each writing operation
adds to it. A rewritten row contributes the difference between its new value
and its old one.
-/
namespace Library.Table

variable {Row Key M : Type*} {key : Row → Key} [AddCommGroup M]

def total (f : Row → M) (t : Table Row key) : M := (t.rows.map f).sum

section Total
variable {t u : Table Row key} {f g : Row → M} {r : Row}

@[simp] theorem total_empty : (empty : Table Row key).total f = 0 := by simp [total]

theorem total_congr (h : ∀ r ∈ t.rows, f r = g r) : t.total f = t.total g := by
  rw [total, total, List.map_congr_left h]

variable [DecidableEq Key]

theorem total_insert (h : t.insert r = some u) : u.total f = t.total f + f r := by
  simp [total, insert_rows h]

/-- The rest of the table keeps its share. -/
theorem total_modify {k : Key} {w : Row → Row} {hw : ∀ r, key (w r) = key r}
    (h : t.find k = some r) : (t.modify k w hw).total f = t.total f + (f (w r) - f r) := by
  have hsplit : ∃ before after, t.rows = before ++ r :: after ∧
      (t.modify k w hw).rows = before ++ w r :: after := modify_split h
  obtain ⟨before, after, hrows, hmodified⟩ := hsplit
  simp only [total, hrows, hmodified, List.map_append, List.map_cons, List.sum_append,
    List.sum_cons]
  abel

end Total

end Library.Table
