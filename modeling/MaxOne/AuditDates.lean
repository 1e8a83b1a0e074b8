import MaxOne.Library.Calendar
import MaxOne.StaffLists

/-!
# Date ranges of the audit trail

The dates chosen in the two inputs of the staff console reach `AuditService.findMany` as
the midnights they begin with, and the query compares them with `gte` and `lte`. Of the
last day only the first millisecond is inside.
-/
namespace MaxOne.AuditDates
open Library Library.Paging Library.Calendar MaxOne.StaffLists

/-- `new Date('YYYY-MM-DD')`. -/
def newDate (d : Date) : ℤ := midnight d

/-- The other filters with the dates of `DateRange`. -/
def ranged (query : AuditQuery) (fromDate toDate : Date) : AuditQuery :=
  { query with fromDate := some (newDate fromDate), toDate := some (newDate toDate) }

def undated (query : AuditQuery) : AuditQuery := { query with fromDate := none, toDate := none }

/-- The page holds the rows of the days from one date to the other that pass the other
filters, each once, and counts them. -/
structure Answers (text : Text) (logs : List AuditRow) (query : AuditQuery) (fromDate toDate : Date)
    (page : Page AuditRow) : Prop where
  nodup : page.rows.Nodup
  rows : ∀ log, log ∈ page.rows ↔
    log ∈ logs ∧ auditWhere text (undated query) log = true ∧ Between fromDate toDate log.createdAt
  total : page.total = page.rows.length

/-- What a page without a cut-off shows. -/
structure Whole (text : Text) (logs : List AuditRow) (query : AuditQuery) (sorted : List AuditRow) :
    Prop where
  sorted : Sorted auditOrder (logs.filter (auditWhere text query)) sorted
  skip : query.skip.getD 0 = 0
  take : (logs.filter (auditWhere text query)).length ≤
    min ((query.take.getD 20 : ℕ+) : ℕ) 100

section Range
variable {text : Text} {query : AuditQuery} {fromDate toDate : Date} {log : AuditRow}
  {logs : List AuditRow} {sorted : List AuditRow}

theorem auditWhere_ranged : auditWhere text (ranged query fromDate toDate) log = true ↔
    auditWhere text (undated query) log = true ∧
      midnight fromDate ≤ log.createdAt ∧ (log.createdAt : ℤ) ≤ midnight toDate := by
  simp [auditWhere, ranged, undated, newDate, and_assoc]

/-- A page that is not cut off has the matching rows. -/
theorem rows_perm (h : Whole text logs query sorted) :
    (findManyLogs text logs query sorted).rows.Perm (logs.filter (auditWhere text query)) := by
  have hlength := h.sorted.perm.length_eq
  have htake := h.take
  rw [findManyLogs, findPage, page, h.skip, List.drop_zero, List.take_of_length_le (by omega)]
  exact h.sorted.perm

/-- The range answers if and only if no row of the last day was written after its midnight. -/
theorem dateRange_iff (logs : Table AuditRow AuditRow.id) (hdates : fromDate ≤ toDate)
    (hwhole : Whole text logs.rows (ranged query fromDate toDate) sorted) :
    Answers text logs.rows query fromDate toDate
        (findManyLogs text logs.rows (ranged query fromDate toDate) sorted) ↔
      ∀ log ∈ logs.rows, auditWhere text (undated query) log = true →
        OnDay toDate log.createdAt → log.createdAt = midnight toDate := by
  have hperm := rows_perm hwhole
  have hmem : ∀ log, log ∈ (findManyLogs text logs.rows (ranged query fromDate toDate) sorted).rows ↔
      log ∈ logs.rows ∧ auditWhere text (undated query) log = true ∧
        midnight fromDate ≤ log.createdAt ∧ (log.createdAt : ℤ) ≤ midnight toDate := by
    intro log
    rw [hperm.mem_iff, List.mem_filter, auditWhere_ranged]
  have hday : (0 : ℤ) < msPerDay := by decide
  constructor
  · intro h log hlog hothers hon
    have hbetween : Between fromDate toDate log.createdAt := ⟨toDate, hdates, le_refl _, hon⟩
    have hshown := (h.rows log).mpr ⟨hlog, hothers, hbetween⟩
    exact le_antisymm ((hmem log).mp hshown).2.2.2 hon.1
  · intro h
    refine ⟨?_, ?_, hperm.length_eq.symm⟩
    · exact hperm.nodup_iff.mpr (filter_nodup logs _)
    · intro log
      rw [hmem, between_iff]
      constructor
      · rintro ⟨hlog, hothers, hlow, hhigh⟩
        exact ⟨hlog, hothers, hlow, by omega⟩
      · rintro ⟨hlog, hothers, hlow, hhigh⟩
        refine ⟨hlog, hothers, hlow, ?_⟩
        rcases le_or_gt (log.createdAt : ℤ) (midnight toDate) with hle | hgt
        · exact hle
        · exact (h log hlog hothers ⟨hgt.le, hhigh⟩).le

end Range

/-! ## A day -/

def lastOfJanuary : Date := ⟨2026, 1, 31, by decide, by decide, by decide, by decide⟩

def plainText : Text := ⟨fun _ _ => true, fun _ _ => true, id, SortOrder.ofLinear String⟩

def noFilter : AuditQuery := ⟨none, none, none, none, none, none, none, none, none⟩

/-- A row written at a time of 31 January 2026, in milliseconds of the day. -/
def writtenAt (ms : ℕ) : AuditRow := ⟨1, "staff", "wallet.adjust", "wallet", "w", 1769817600000 + ms⟩

def trail (ms : ℕ) : Table AuditRow AuditRow.id := ⟨[writtenAt ms], by simp⟩

/-- The row of midnight is found. -/
theorem dateRange_iff_midnight : Answers plainText (trail 0).rows noFilter lastOfJanuary lastOfJanuary
    (findManyLogs plainText (trail 0).rows (ranged noFilter lastOfJanuary lastOfJanuary)
      [writtenAt 0]) := by
  have hwhole : Whole plainText (trail 0).rows (ranged noFilter lastOfJanuary lastOfJanuary)
      [writtenAt 0] := by
    refine ⟨⟨?_, List.pairwise_singleton _ _⟩, rfl, by decide⟩
    have hmatching : (trail 0).rows.filter (auditWhere plainText
        (ranged noFilter lastOfJanuary lastOfJanuary)) = [writtenAt 0] := by decide
    rw [hmatching]
  refine (dateRange_iff (trail 0) (le_refl _) hwhole).mpr ?_
  intro log hlog _ _
  rw [List.mem_singleton.mp hlog]
  decide

/-- A row of noon is not: the range from that day to that day is empty. -/
theorem noon_missing :
    (findManyLogs plainText (trail 43200000).rows (ranged noFilter lastOfJanuary lastOfJanuary) []).rows
        = [] ∧
      Whole plainText (trail 43200000).rows (ranged noFilter lastOfJanuary lastOfJanuary) [] ∧
      ¬Answers plainText (trail 43200000).rows noFilter lastOfJanuary lastOfJanuary
        (findManyLogs plainText (trail 43200000).rows
          (ranged noFilter lastOfJanuary lastOfJanuary) []) := by
  have hmatching : (trail 43200000).rows.filter (auditWhere plainText
      (ranged noFilter lastOfJanuary lastOfJanuary)) = [] := by decide
  have hrows : (findManyLogs plainText (trail 43200000).rows
      (ranged noFilter lastOfJanuary lastOfJanuary) []).rows = [] := rfl
  refine ⟨hrows, ⟨⟨by rw [hmatching], .nil⟩, rfl, by rw [hmatching]; decide⟩, ?_⟩
  intro h
  have hon : OnDay lastOfJanuary (writtenAt 43200000).createdAt := ⟨by decide, by decide⟩
  have hshown := (h.rows (writtenAt 43200000)).mpr
    ⟨List.mem_singleton_self _, by decide, lastOfJanuary, le_refl _, le_refl _, hon⟩
  rw [hrows] at hshown
  cases hshown

end MaxOne.AuditDates
