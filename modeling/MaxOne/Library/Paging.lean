import Mathlib.Tactic

/-!
# Pages of a sorted result

A query sorts a list of rows and returns one page of it; rows that the order does
not separate may come in any order, a different one for each query. Walking through
the pages then finds every row once, whatever the queries do, exactly when no page
ends inside a group of rows that the order does not separate.

Where such a group lies follows from counting: it starts after the rows that come
before it and ends after those that do not come after it.
-/
namespace Library.Paging

/-- What an `ORDER BY` compares: two rows may tie. -/
structure SortOrder (Row : Type*) where
  le : Row → Row → Bool
  total : ∀ a b, le a b = true ∨ le b a = true
  trans : ∀ a b c, le a b = true → le b c = true → le a c = true

namespace SortOrder
variable {Row K : Type*}

theorem refl (o : SortOrder Row) (a : Row) : o.le a a = true := (o.total a a).elim id id

def ofLinear (K : Type*) [LinearOrder K] : SortOrder K where
  le a b := a ≤ b
  total a b := by simpa using le_total a b
  trans a b c := by simpa using le_trans

/-- Rows by one of their fields. -/
def onField (o : SortOrder K) (key : Row → K) : SortOrder Row where
  le a b := o.le (key a) (key b)
  total a b := o.total (key a) (key b)
  trans a b c := o.trans (key a) (key b) (key c)

/-- Descending. -/
def flip (o : SortOrder Row) : SortOrder Row where
  le a b := o.le b a
  total a b := o.total b a
  trans a b c hab hbc := o.trans c b a hbc hab

end SortOrder

variable {Row : Type*} (order : SortOrder Row) (rows : List Row)

/-- A result the query may return before it is cut into pages. -/
structure Sorted (result : List Row) : Prop where
  perm : result.Perm rows
  sorted : result.Pairwise fun a b => order.le a b = true

def page (skip take : ℕ) (result : List Row) : List Row := (result.drop skip).take take

/-- How many pages it takes to ask for all rows. -/
def pageCount (total take : ℕ) : ℕ := (total + take - 1) / take

/-- The pages one after the other; `results` is what each query has sorted. -/
def walk (take : ℕ) (results : ℕ → List Row) : List Row :=
  (List.range (pageCount rows.length take)).flatMap fun i => page (i * take) take (results i)

/-- How many rows come before `r`, and how many do not come after it. -/
def below (r : Row) : ℕ := rows.countP fun x => !order.le r x
def upTo (r : Row) : ℕ := rows.countP fun x => order.le x r

/-- No page ends between two rows that the order does not separate. -/
def NoSplit (take : ℕ) : Prop :=
  ∀ r ∈ rows, ∀ i, ¬ (below order rows r < i * take ∧ i * take < upTo order rows r)

section Position
variable {order rows} {result before after : List Row} {r : Row} {skip take : ℕ}

theorem exists_sorted (order : SortOrder Row) (rows : List Row) : ∃ result, Sorted order rows result :=
  ⟨rows.mergeSort order.le, List.mergeSort_perm rows order.le,
    List.pairwise_mergeSort order.trans (fun a b => by simpa using order.total a b) rows⟩

/-- A row stands after those that come before it and before those that come after it. -/
theorem Sorted.position (h : Sorted order rows (before ++ r :: after)) :
    below order rows r ≤ before.length ∧ before.length < upTo order rows r := by
  obtain ⟨hbefore, hafter, hacross⟩ := List.pairwise_append.mp h.sorted
  obtain ⟨hr, -⟩ := List.pairwise_cons.mp hafter
  constructor
  · rw [below, ← h.perm.countP_eq, List.countP_append]
    have hzero : (r :: after).countP (fun x => !order.le r x) = 0 := by
      refine List.countP_eq_zero.mpr fun x hx => ?_
      rcases List.mem_cons.mp hx with rfl | hin
      · simp [order.refl]
      · simp [hr x hin]
    rw [hzero, Nat.add_zero]
    exact List.countP_le_length
  · rw [upTo, ← h.perm.countP_eq, List.countP_append, List.countP_cons, order.refl, if_pos rfl]
    have hall : before.countP (fun x => order.le x r) = before.length :=
      List.countP_eq_length.mpr fun x hx => hacross x hx r List.mem_cons_self
    omega

theorem split_of_getElem? {p : ℕ} (h : result[p]? = some r) :
    ∃ before after, result = before ++ r :: after ∧ before.length = p := by
  obtain ⟨hp, rfl⟩ := List.getElem?_eq_some_iff.mp h
  refine ⟨result.take p, result.drop (p + 1), ?_, by simp; omega⟩
  rw [← List.drop_eq_getElem_cons hp, List.take_append_drop]

theorem mem_page : r ∈ page skip take result ↔
    ∃ p, result[p]? = some r ∧ skip ≤ p ∧ p < skip + take := by
  rw [page, List.mem_iff_getElem?]
  constructor
  · rintro ⟨j, hj⟩
    rw [List.getElem?_take] at hj
    split_ifs at hj with hlt
    rw [List.getElem?_drop] at hj
    exact ⟨skip + j, hj, by omega, by omega⟩
  · rintro ⟨p, hp, hlow, hhigh⟩
    refine ⟨p - skip, ?_⟩
    rw [List.getElem?_take, if_pos (by omega), List.getElem?_drop]
    have hsum : skip + (p - skip) = p := by omega
    rw [hsum]
    exact hp

/-- Where a row of a page stands. -/
theorem Sorted.position_of_page (h : Sorted order rows result) (hr : r ∈ page skip take result) :
    ∃ p, skip ≤ p ∧ p < skip + take ∧ below order rows r ≤ p ∧ p < upTo order rows r := by
  obtain ⟨p, hp, hlow, hhigh⟩ := mem_page.mp hr
  obtain ⟨before, after, rfl, rfl⟩ := split_of_getElem? hp
  have hpos := h.position
  exact ⟨before.length, hlow, hhigh, hpos.1, hpos.2⟩

theorem upTo_le : upTo order rows r ≤ rows.length := List.countP_le_length

theorem lt_pageCount {i take total : ℕ} (htake : 0 < take) :
    i < pageCount total take ↔ i * take < total := by
  rw [pageCount, Nat.lt_div_iff_mul_lt htake]
  omega

end Position

section Walk
variable {order rows} {take : ℕ} {results : ℕ → List Row}

/-- A page that starts before the group of a row and does not end inside it has the row. -/
theorem mem_page_iff (hsplit : NoSplit order rows take) (htake : 0 < take) {r : Row} (hr : r ∈ rows)
    {result : List Row} (h : Sorted order rows result) (i : ℕ) :
    r ∈ page (i * take) take result ↔ i = below order rows r / take := by
  set j := below order rows r / take with hj
  have hlow : j * take ≤ below order rows r := Nat.div_mul_le_self _ _
  have hhigh : below order rows r < (j + 1) * take := by
    rw [hj, Nat.add_mul, Nat.one_mul]
    exact Nat.lt_div_mul_add htake
  have hend : upTo order rows r ≤ (j + 1) * take := by
    by_contra hlt
    exact hsplit r hr (j + 1) ⟨hhigh, not_le.mp hlt⟩
  rw [Nat.add_mul, Nat.one_mul] at hhigh hend
  constructor
  · intro hpage
    obtain ⟨p, hstart, hstop, hfrom, hto⟩ := h.position_of_page hpage
    rcases lt_trichotomy i j with hlt | heq | hgt
    · have hnext : (i + 1) * take ≤ j * take := Nat.mul_le_mul_right _ hlt
      rw [Nat.add_mul, Nat.one_mul] at hnext
      omega
    · exact heq
    · have hnext : (j + 1) * take ≤ i * take := Nat.mul_le_mul_right _ hgt
      rw [Nat.add_mul, Nat.one_mul] at hnext
      omega
  · rintro rfl
    obtain ⟨p, hp⟩ := List.mem_iff_getElem?.mp (h.perm.mem_iff.mpr hr)
    obtain ⟨before, after, rfl, rfl⟩ := split_of_getElem? hp
    have hpos := h.position
    exact mem_page.mpr ⟨before.length, hp, by omega, by omega⟩

theorem page_nodup {skip : ℕ} {result : List Row} (hrows : rows.Nodup) (h : Sorted order rows result) :
    (page skip take result).Nodup :=
  ((h.perm.nodup_iff.mpr hrows).sublist (List.drop_sublist _ _)).sublist (List.take_sublist _ _)

theorem walk_perm (hrows : rows.Nodup) (htake : 0 < take) (hsplit : NoSplit order rows take)
    (h : ∀ i, Sorted order rows (results i)) : (walk rows take results).Perm rows := by
  have hsub : ∀ i, ∀ r ∈ page (i * take) take (results i), r ∈ rows := fun i r hr =>
    (h i).perm.mem_iff.mp (List.mem_of_mem_drop (List.mem_of_mem_take hr))
  have hnodup : (walk rows take results).Nodup := by
    refine List.nodup_flatMap.mpr ⟨fun i _ => page_nodup hrows (h i), ?_⟩
    refine List.nodup_range.pairwise_of_forall_ne fun i _ j _ hne => ?_
    intro r hi hj
    have hr := hsub i r hi
    exact hne (((mem_page_iff hsplit htake hr (h i) i).mp hi).trans
      ((mem_page_iff hsplit htake hr (h j) j).mp hj).symm)
  refine (List.perm_ext_iff_of_nodup hnodup hrows).mpr fun r => ⟨fun hr => ?_, fun hr => ?_⟩
  · obtain ⟨i, -, hi⟩ := List.mem_flatMap.mp hr
    exact hsub i r hi
  · have hpage := (mem_page_iff hsplit htake hr (h (below order rows r / take)) _).mpr rfl
    refine List.mem_flatMap.mpr ⟨_, List.mem_range.mpr ((lt_pageCount htake).mpr ?_), hpage⟩
    obtain ⟨p, hstart, -, -, hto⟩ := (h _).position_of_page hpage
    exact (hstart.trans_lt hto).trans_le upTo_le

/-- A page that ends inside a group ends between two rows that the order does not separate. -/
theorem exists_tie {r : Row} {b : ℕ} {result : List Row} (h : Sorted order rows result)
    (hlow : below order rows r < b) (hhigh : b < upTo order rows r) :
    ∃ before x y after, result = before ++ x :: y :: after ∧ before.length + 1 = b ∧
      order.le y x = true := by
  have hlength : b < result.length := by
    rw [h.perm.length_eq]
    exact hhigh.trans_le upTo_le
  obtain ⟨x, hx⟩ : ∃ x, result[b - 1]? = some x := ⟨_, List.getElem?_eq_getElem (by omega)⟩
  obtain ⟨before, rest, rfl, hbefore⟩ := split_of_getElem? hx
  obtain ⟨y, after, rfl⟩ : ∃ y after, rest = y :: after := by
    refine List.exists_cons_of_length_pos ?_
    simp only [List.length_append, List.length_cons] at hlength
    omega
  refine ⟨before, x, y, after, rfl, by omega, ?_⟩
  have hsorted := h.sorted
  simp only [List.pairwise_append, List.pairwise_cons, List.mem_cons, forall_eq_or_imp] at hsorted
  obtain ⟨-, ⟨-, hy, -⟩, hacross⟩ := hsorted
  by_contra hyx
  have hsum : ∀ f : Row → Bool, rows.countP f = (before ++ [x]).countP f + (y :: after).countP f := by
    intro f
    rw [← h.perm.countP_eq, ← List.countP_append, List.append_assoc]
    rfl
  have hfirst : (before ++ [x]).length = b := by simp; omega
  -- the group of `r` begins after `x` or ends before `y`
  by_cases hyr : order.le y r = true
  · have hall : (before ++ [x]).countP (fun z => !order.le r z) = b := by
      rw [← hfirst]
      refine List.countP_eq_length.mpr fun z hz => ?_
      have hzx : order.le z x = true := by
        rcases List.mem_append.mp hz with hin | hin
        · exact (hacross z hin).1
        · rw [List.mem_singleton.mp hin]
          exact order.refl x
      rw [Bool.not_eq_true', Bool.eq_false_iff]
      exact fun hrz => hyx (order.trans y z x (order.trans y r z hyr hrz) hzx)
    have hbelow := hsum fun z => !order.le r z
    rw [hall] at hbelow
    rw [below] at hlow
    omega
  · have hnone : (y :: after).countP (fun z => order.le z r) = 0 := by
      refine List.countP_eq_zero.mpr fun z hz hzr => hyr ?_
      rcases List.mem_cons.mp hz with rfl | hin
      · exact hzr
      · exact order.trans y z r (hy z hin) hzr
    have hupTo := hsum fun z => order.le z r
    have hle : (before ++ [x]).countP (fun z => order.le z r) ≤ b :=
      hfirst ▸ List.countP_le_length
    rw [upTo] at hhigh
    omega

/-- Where a page ends inside a group, some queries repeat a row. -/
theorem exists_not_perm (hrows : rows.Nodup) (htake : 0 < take) (hsplit : ¬ NoSplit order rows take) :
    ∃ results : ℕ → List Row, (∀ i, Sorted order rows (results i)) ∧
      ¬ (walk rows take results).Perm rows := by
  unfold NoSplit at hsplit
  push Not at hsplit
  obtain ⟨r, -, i, hlow, hhigh⟩ := hsplit
  obtain ⟨result, hresult⟩ := exists_sorted order rows
  obtain ⟨before, x, y, after, rfl, hlength, htie⟩ := exists_tie hresult hlow hhigh
  -- the query of the next page has the two rows the other way round
  have hswapped : Sorted order rows (before ++ y :: x :: after) := by
    refine ⟨(List.Perm.append_left before (List.Perm.swap x y after)).trans hresult.perm, ?_⟩
    have hsorted := hresult.sorted
    simp only [List.pairwise_append, List.pairwise_cons, List.mem_cons, forall_eq_or_imp] at hsorted ⊢
    obtain ⟨hbefore, ⟨⟨hxy, hx⟩, hy, hafter⟩, hacross⟩ := hsorted
    exact ⟨hbefore, ⟨⟨htie, hy⟩, hx, hafter⟩, fun z hz =>
      ⟨(hacross z hz).2.1, (hacross z hz).1, (hacross z hz).2.2⟩⟩
  refine ⟨fun j => if j = i then before ++ y :: x :: after else before ++ x :: y :: after,
    fun j => ?_, fun hperm => ?_⟩
  · dsimp only
    split_ifs
    · exact hswapped
    · exact hresult
  · have hi : 0 < i := by
      rcases Nat.eq_zero_or_pos i with rfl | hpos
      · omega
      · exact hpos
    have hstep : (i - 1) * take + take = i * take := by
      rw [← Nat.succ_mul, Nat.succ_eq_add_one, Nat.sub_add_cancel hi]
    have hfirst : x ∈ page ((i - 1) * take) take (before ++ x :: y :: after) :=
      mem_page.mpr ⟨before.length, by simp, by omega, by omega⟩
    have hsecond : x ∈ page (i * take) take (before ++ y :: x :: after) :=
      mem_page.mpr ⟨before.length + 1, by simp, by omega, by omega⟩
    have hcount : i * take < rows.length := hhigh.trans_le upTo_le
    have hpages := (List.nodup_flatMap.mp (hperm.nodup_iff.mpr hrows)).2
    have hlast : i < (List.range (pageCount rows.length take)).length := by
      rw [List.length_range]
      exact (lt_pageCount htake).mpr hcount
    have hdisjoint := List.pairwise_iff_getElem.mp hpages (i - 1) i (by omega) hlast (by omega)
    simp only [Function.onFun, List.getElem_range] at hdisjoint
    rw [if_neg (by omega), if_pos trivial] at hdisjoint
    exact hdisjoint hfirst hsecond

end Walk

/-- The walk finds every row once, whatever the queries do with ties, exactly when no page ends
inside a group. -/
theorem walk_perm_iff (hrows : rows.Nodup) {take : ℕ} (htake : 0 < take) :
    (∀ results : ℕ → List Row, (∀ i, Sorted order rows (results i)) →
      (walk rows take results).Perm rows) ↔ NoSplit order rows take := by
  refine ⟨fun hall => ?_, fun hsplit results h => walk_perm hrows htake hsplit h⟩
  by_contra hsplit
  obtain ⟨results, h, hnot⟩ := exists_not_perm hrows htake hsplit
  exact hnot (hall results h)

/-- The pages one after the other, where an answer has at most `cap` rows. -/
def walkCapped (cap take : ℕ) (results : ℕ → List Row) : List Row :=
  (List.range (pageCount rows.length take)).flatMap fun i => page (i * take) (min take cap) (results i)

section Capped
variable {order rows} {cap take : ℕ} {results : ℕ → List Row}

theorem walkCapped_of_le (hcap : take ≤ cap) :
    walkCapped rows cap take results = walk rows take results := by
  rw [walkCapped, min_eq_left hcap, walk]

/-- All rows fit into one answer. -/
theorem walkCapped_of_length (hcap : rows.length ≤ cap) (h : ∀ i, Sorted order rows (results i)) :
    walkCapped rows cap take results = walk rows take results := by
  refine List.flatMap_congr fun i _ => ?_
  have hshort : ((results i).drop (i * take)).length ≤ cap := by
    rw [List.length_drop, (h i).perm.length_eq]
    omega
  rw [page, page, ← List.take_take, List.take_of_length_le hshort]

theorem noSplit_of_length (hlength : rows.length < take) : NoSplit order rows take := by
  rintro r - i ⟨hlow, hhigh⟩
  have hend := hhigh.trans_le upTo_le
  rcases Nat.eq_zero_or_pos i with rfl | hpos
  · omega
  · have hle : 1 * take ≤ i * take := Nat.mul_le_mul_right take hpos
    omega

/-- The row after the first answer is on no page. -/
theorem not_walkCapped_perm (hrows : rows.Nodup) (hcap : cap < take) (hlength : cap < rows.length) :
    ∃ results : ℕ → List Row, (∀ i, Sorted order rows (results i)) ∧
      ¬ (walkCapped rows cap take results).Perm rows := by
  obtain ⟨result, hresult⟩ := exists_sorted order rows
  refine ⟨fun _ => result, fun _ => hresult, fun hperm => ?_⟩
  have hin : cap < result.length := by rwa [hresult.perm.length_eq]
  have hmem : result[cap] ∈ walkCapped rows cap take fun _ => result :=
    (hperm.mem_iff).mpr (hresult.perm.mem_iff.mp (List.getElem_mem hin))
  obtain ⟨i, -, hi⟩ := List.mem_flatMap.mp hmem
  obtain ⟨p, hp, hlow, hhigh⟩ := mem_page.mp hi
  obtain ⟨hlt, hsame⟩ := List.getElem?_eq_some_iff.mp hp
  obtain rfl : p = cap :=
    ((hresult.perm.nodup_iff.mpr hrows).getElem_inj_iff).mp hsame
  rw [min_eq_right hcap.le] at hhigh
  rcases Nat.eq_zero_or_pos i with rfl | hpos
  · omega
  · have hle : 1 * take ≤ i * take := Nat.mul_le_mul_right take hpos
    omega

/-- Where an answer has at most `cap` rows, the walk finds every row once exactly when the pages
are within the cap and split no group, or all rows are. -/
theorem walkCapped_perm_iff (order : SortOrder Row) (hrows : rows.Nodup) (htake : 0 < take) :
    (∀ results : ℕ → List Row, (∀ i, Sorted order rows (results i)) →
      (walkCapped rows cap take results).Perm rows) ↔
        (take ≤ cap ∧ NoSplit order rows take) ∨ (cap < take ∧ rows.length ≤ cap) := by
  rcases le_or_gt take cap with hle | hlt
  · simp only [walkCapped_of_le hle, walk_perm_iff order rows hrows htake, hle, true_and,
      not_lt.mpr hle, false_and, or_false]
  · simp only [not_le.mpr hlt, false_and, hlt, true_and, false_or]
    constructor
    · intro hall
      by_contra hlong
      obtain ⟨results, h, hnot⟩ := not_walkCapped_perm hrows hlt (not_le.mp hlong)
      exact hnot (hall results h)
    · intro hshort results h
      rw [walkCapped_of_length hshort h]
      exact walk_perm hrows htake (noSplit_of_length (hshort.trans_lt hlt)) h

end Capped

/-- An order that separates all rows splits no group. -/
theorem noSplit_of_separates {order : SortOrder Row} {rows : List Row} (hrows : rows.Nodup)
    (h : ∀ a ∈ rows, ∀ b ∈ rows, order.le a b = true → order.le b a = true → a = b) (take : ℕ) :
    NoSplit order rows take := by
  intro r _ i hsplit
  obtain ⟨result, hresult⟩ := exists_sorted order rows
  obtain ⟨before, x, y, after, rfl, -, hyx⟩ := exists_tie hresult hsplit.1 hsplit.2
  have hnodup := hresult.perm.nodup_iff.mpr hrows
  have hxy : order.le x y = true :=
    (List.pairwise_cons.mp (List.pairwise_append.mp hresult.sorted).2.1).1 y List.mem_cons_self
  have heq : x = y := h x (hresult.perm.mem_iff.mp (by simp)) y (hresult.perm.mem_iff.mp (by simp)) hxy hyx
  rw [heq] at hnodup
  exact (List.nodup_cons.mp (List.nodup_append.mp hnodup).2.1).1 List.mem_cons_self

end Library.Paging
