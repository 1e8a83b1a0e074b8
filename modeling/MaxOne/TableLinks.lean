import MaxOne.Library.NumberText
import MaxOne.Library.Record

/-!
# Table state in the URL

How the search parameters of a staff list become its state (`parseTableParams`), how the
state becomes the query of the API (`apiQuery`), and how a change becomes the next link
(`tableHref`). A query string is the list of its parameters, as they come out of the
encoding: a well-formed text as it went in.

A link leads back to the state it was made from, with the changed parts, unless a text
was cut in front of white space or inside a pair. Every page up to the first one whose
`skip` is no exact integer is accepted by the lists.
-/
namespace MaxOne.TableLinks
open Library Library.Binary64 Library.Utf16 Library.NumberText

def pageSizes : List ℕ := [20, 50, 100]

structure TableConfig where
  sortFields : List Text
  defaultSort : Text
  filterKeys : List Text
  defaultSize : Option ℕ

def qKey : Text := ofString "q"

def sortKey : Text := ofString "sort"

def pageKey : Text := ofString "page"

def sizeKey : Text := ofString "size"

def skipKey : Text := ofString "skip"

def takeKey : Text := ofString "take"

def colon : UInt16 := 0x3A

def asc : Text := ofString "asc"

def desc : Text := ofString "desc"

def walletsTable : TableConfig where
  sortFields := [ofString "balance", ofString "createdAt", ofString "name"]
  defaultSort := ofString "createdAt:asc"
  filterKeys := [ofString "currency"]
  defaultSize := none

def usersTable : TableConfig where
  sortFields := [ofString "createdAt", ofString "email", ofString "status"]
  defaultSort := ofString "createdAt:desc"
  filterKeys := [ofString "role", ofString "status"]
  defaultSize := none

/-- No sort: always newest first. -/
def auditTable : TableConfig where
  sortFields := []
  defaultSort := ofString "createdAt:desc"
  filterKeys := [ofString "entityType", ofString "action", ofString "actorId", ofString "from",
    ofString "to"]
  defaultSize := none

def configs : List TableConfig := [walletsTable, usersTable, auditTable]

structure TableParams where
  q : Text
  sort : Text
  page : Number
  size : ℕ
  filters : Record Text Text
  skip : Number
  take : ℕ

inductive RawParam where
  | text (s : Text)
  | array (items : List Text)

/-- The value under each name; `none` is undefined. -/
abbrev RawParams := Text → Option RawParam

def first : Option RawParam → Text
  | none => []
  | some (.text s) => s
  | some (.array items) => items.headD []

def sortParam (v : Text) (cfg : TableConfig) : Text :=
  match v.splitOn colon with
  | field :: dir :: _ =>
      if field ∈ cfg.sortFields ∧ (dir = asc ∨ dir = desc) then field ++ colon :: dir
      else cfg.defaultSort
  | _ => cfg.defaultSort

def TableConfig.size (cfg : TableConfig) : ℕ := cfg.defaultSize.getD 20

def sizeParam (v : Text) (cfg : TableConfig) : ℕ :=
  (pageSizes.find? fun size : ℕ => ofUnits v = .finite size).getD cfg.size

/-- `Math.max(1, Math.floor(Number(v) || 1))`. -/
def pageParam (v : Text) : Number :=
  let number := ofUnits v
  let page := if number = .finite 0 ∨ number = .nan then .finite 1 else number
  (Number.finite 1).max page.floor

/-- `(page - 1) * size`. -/
def skipOf (page : Number) (size : ℕ) : Number := (page.add (.finite (-1))).mul (.finite size)

def parseTableParams (raw : RawParams) (cfg : TableConfig) : TableParams :=
  let size := sizeParam (first (raw sizeKey)) cfg
  let page := pageParam (first (raw pageKey))
  { q := (trim (first (raw qKey))).take 100
    sort := sortParam (first (raw sortKey)) cfg
    page := page
    size := size
    filters := cfg.filterKeys.foldl (fun filters k =>
      let v := trim (first (raw k))
      if v = [] then filters else filters.set k (v.take 60)) .empty
    skip := skipOf page size
    take := size }

/-! ## Queries and links -/

abbrev SearchParams := Record Text Text

/-- Names and values are encoded, so a half of a pair by itself is replaced. -/
def setParam (sp : SearchParams) (k v : Text) : SearchParams := sp.set (scrub k) (scrub v)

def setIf (sp : SearchParams) (b : Bool) (k v : Text) : SearchParams := if b then setParam sp k v else sp

def apiQuery (p : TableParams) (sort : Bool) : SearchParams :=
  let sp := setIf .empty (p.q ≠ []) qKey p.q
  let sp := setIf sp sort sortKey p.sort
  let sp := setParam sp skipKey (text p.skip)
  let sp := setParam sp takeKey (text (.finite p.take))
  p.filters.rows.foldl (fun sp e => setParam sp e.1 e.2) sp

/-- A filter given as undefined is cleared. -/
structure TablePatch where
  q : Option Text
  sort : Option Text
  page : Option Number
  size : Option ℕ
  filters : Option (Record Text (Option Text))

def TablePatch.none : TablePatch := ⟨.none, .none, .none, .none, .none⟩

def TablePatch.resets (patch : TablePatch) : Bool :=
  patch.q.isSome || patch.sort.isSome || patch.size.isSome || patch.filters.isSome

/-- `filters[k] = v` or `delete filters[k]`. -/
def patchFilter (filters : Record Text Text) (k : Text) (v : Option Text) : Record Text Text :=
  match v with
  | some v => if v = [] then filters.delete k else filters.set k v
  | .none => filters.delete k

def patchFilters (filters : Record Text Text) (patch : Option (Record Text (Option Text))) :
    Record Text Text :=
  match patch with
  | some fs => fs.rows.foldl (fun filters e => patchFilter filters e.1 e.2) filters
  | .none => filters

/-- The parameters of a link, with defaults dropped. -/
def linkParams (q sort : Text) (page : Number) (size : ℕ) (filters : Record Text Text)
    (cfg : TableConfig) : SearchParams :=
  let sp := setIf .empty (q ≠ []) qKey q
  let sp := setIf sp (sort ≠ cfg.defaultSort) sortKey sort
  let sp := setIf sp ((Number.finite 1).lt page) pageKey (text page)
  let sp := setIf sp (size ≠ cfg.size) sizeKey (text (.finite size))
  cfg.filterKeys.foldl (fun sp k =>
    let v := (filters.get k).getD []
    setIf sp (v ≠ []) k v) sp

/-- Without parameters there is no question mark. -/
structure Href where
  pathname : Text
  search : SearchParams

def tableHref (pathname : Text) (current : TableParams) (patch : TablePatch) (cfg : TableConfig) : Href :=
  let page := if patch.resets then .finite 1 else patch.page.getD current.page
  ⟨pathname, linkParams (patch.q.getD current.q) (patch.sort.getD current.sort) page
    (patch.size.getD current.size) (patchFilters current.filters patch.filters) cfg⟩

/-- What the page reads from a link: `Object.fromEntries(sp.entries())`. -/
def Href.raw (href : Href) : RawParams := fun k => (href.search.get k).map .text

/-! ## What the parser yields -/

section Parse
variable {raw : RawParams} {cfg : TableConfig} {k v : Text} {page : Number} {size : ℕ}

/-- The text a filter is read as. -/
def filterValue (raw : RawParams) (k : Text) : Text := (trim (first (raw k))).take 60

def nonEmpty (v : Text) : Option Text := if v = [] then none else some v

theorem get_foldl_filters (raw : RawParams) (keys : List Text) (filters : Record Text Text) (k : Text) :
    (keys.foldl (fun filters k =>
      let v := trim (first (raw k))
      if v = [] then filters else filters.set k (v.take 60)) filters).get k =
      if k ∈ keys ∧ filterValue raw k ≠ [] then some (filterValue raw k) else filters.get k := by
  induction keys generalizing filters with
  | nil => simp
  | cons key keys ih =>
      rw [List.foldl_cons, ih]
      by_cases hempty : trim (first (raw key)) = []
      · rw [if_pos hempty]
        by_cases hk : k = key
        · subst hk
          simp [filterValue, hempty]
        · simp [hk]
      · rw [if_neg hempty, Record.get_set]
        by_cases hk : k = key
        · subst hk
          simp [filterValue, hempty]
        · simp [hk]

theorem get_filters (raw : RawParams) (cfg : TableConfig) (k : Text) :
    (parseTableParams raw cfg).filters.get k =
      if k ∈ cfg.filterKeys then nonEmpty (filterValue raw k) else none := by
  have h := get_foldl_filters raw cfg.filterKeys .empty k
  rw [Record.get_empty] at h
  rw [parseTableParams, h, nonEmpty]
  by_cases hk : k ∈ cfg.filterKeys
  · by_cases hv : filterValue raw k = []
    · simp [hk, hv]
    · simp [hk, hv]
  · simp [hk]

/-- A sort the parser can yield. -/
def Sorted (cfg : TableConfig) (sort : Text) : Prop :=
  sort = cfg.defaultSort ∨ ∃ field ∈ cfg.sortFields, ∃ dir ∈ [asc, desc], sort = field ++ colon :: dir

theorem sorted_sortParam (v : Text) (cfg : TableConfig) : Sorted cfg (sortParam v cfg) := by
  unfold sortParam
  split
  · next field dir rest hsplit =>
      split_ifs with h
      · right
        exact ⟨field, h.1, dir, by simpa using h.2, rfl⟩
      · exact .inl rfl
  · exact .inl rfl

/-- A size the parser can yield. -/
def Sized (cfg : TableConfig) (size : ℕ) : Prop := size ∈ pageSizes ∨ size = cfg.size

theorem sized_sizeParam (v : Text) (cfg : TableConfig) : Sized cfg (sizeParam v cfg) := by
  unfold sizeParam
  cases hfind : pageSizes.find? fun size : ℕ => ofUnits v = .finite size with
  | none => exact .inr rfl
  | some size => exact .inl (List.mem_of_find?_eq_some hfind)

/-- A page the parser can yield: whole, from one on, or infinite. -/
structure Paged (page : Number) : Prop where
  whole : Whole page
  one_le : (Number.finite 1).le page

theorem paged_one : Paged (.finite 1) where
  whole := by
    have h := Whole.finite 1 (ofNat_eq_finite (by norm_num))
    rwa [Nat.cast_one] at h
  one_le := by decide

/-- A number is cut to its whole part and is one at least. -/
theorem pageParam_finite {q : ℚ} (hv : ofUnits v = .finite q) :
    pageParam v = .finite ((max 1 ⌊q⌋ : ℤ) : ℚ) := by
  rw [pageParam, hv]
  by_cases hzero : q = 0
  · rw [hzero, Int.floor_zero]
    decide
  · have hsome : ¬((Number.finite q) = .finite 0 ∨ (Number.finite q) = .nan) := by simp [hzero]
    rw [if_neg hsome, Number.floor, Number.max]
    · by_cases hone : 1 ≤ ⌊q⌋
      · have hle : (1 : ℚ) ≤ ⌊q⌋ := by exact_mod_cast hone
        rw [if_pos (by simpa [Number.le] using hle), max_eq_right hone]
      · have hlt : (⌊q⌋ : ℚ) < 1 := by exact_mod_cast not_le.mp hone
        rw [if_neg (by simpa [Number.le] using hlt), max_eq_left (by omega), Int.cast_one]
    all_goals simp

theorem paged_pageParam (v : Text) : Paged (pageParam v) := by
  cases hv : ofUnits v with
  | nan =>
      rw [pageParam, hv]
      exact paged_one
  | infinity negative =>
      rw [pageParam, hv]
      cases negative
      · exact ⟨.infinity, rfl⟩
      · exact paged_one
  | finite q =>
      rw [pageParam_finite hv]
      by_cases hone : 1 ≤ q
      · have hfloor : 1 ≤ ⌊q⌋ := Int.le_floor.mpr (by simpa using hone)
        have hle : (1 : ℚ) ≤ ⌊q⌋ := by exact_mod_cast hfloor
        rw [max_eq_right hfloor]
        exact ⟨whole_floor hv hone, by simpa [Number.le] using hle⟩
      · have hfloor : ⌊q⌋ ≤ 1 := (Int.floor_lt.mpr (by simpa using hone)).le
        rw [max_eq_left hfloor, Int.cast_one]
        exact paged_one

/-- A page is read as itself. -/
theorem pageParam_eq (h : Paged page) (hv : ofUnits v = page) : pageParam v = page := by
  obtain ⟨hwhole, hone⟩ := h
  rw [pageParam, hv]
  cases hwhole with
  | finite z hz =>
      have hle : (1 : ℚ) ≤ z := by simpa [Number.le] using hone
      have hsome : ¬((Number.finite z) = .finite 0 ∨ (Number.finite z) = .nan) := by
        have hne : (z : ℚ) ≠ 0 := by linarith
        simp [hne]
      rw [if_neg hsome, Number.floor, Int.floor_natCast, Int.cast_natCast, Number.max, if_pos hone]
      all_goals simp
  | infinity => rfl

end Parse

/-! ## What a link is read as -/

section Read
variable {cfg : TableConfig} {sp : SearchParams} {k k' v q sort : Text} {page : Number} {size : ℕ}
  {filters : Record Text Text}

def value (sp : SearchParams) (k : Text) : Text := (sp.get k).getD []

theorem first_raw (href : Href) (k : Text) : first (href.raw k) = value href.search k := by
  rw [Href.raw, value]
  cases href.search.get k <;> rfl

@[simp] theorem value_empty (k : Text) : value .empty k = [] := rfl

theorem value_setParam (hk : WellFormed k) (sp : SearchParams) (v k' : Text) :
    value (setParam sp k v) k' = if k' = k then scrub v else value sp k' := by
  have hname : scrub k = k := hk
  rw [value, setParam, hname, Record.get_set]
  split_ifs
  · rfl
  · rfl

theorem value_setIf (hk : WellFormed k) (sp : SearchParams) (b : Bool) (v k' : Text) :
    value (setIf sp b k v) k' = if k' = k ∧ b then scrub v else value sp k' := by
  cases b with
  | false => simp [setIf]
  | true => simp [setIf, value_setParam hk]

theorem value_foldl (f : Text → Text) (keys : List Text) (hkeys : ∀ k ∈ keys, WellFormed k)
    (sp : SearchParams) (k : Text) :
    value (keys.foldl (fun sp k => setIf sp (f k ≠ []) k (f k)) sp) k =
      if k ∈ keys ∧ f k ≠ [] then scrub (f k) else value sp k := by
  induction keys generalizing sp with
  | nil => simp
  | cons key keys ih =>
      have hkey := hkeys key List.mem_cons_self
      rw [List.foldl_cons, ih fun k hk => hkeys k (List.mem_cons_of_mem _ hk), value_setIf hkey]
      by_cases hk : k = key
      · subst hk
        by_cases hv : f k = []
        · simp [hv]
        · simp [hv]
      · simp [hk]

/-- What a table needs of its configuration for its links to be read back. -/
structure Sound (cfg : TableConfig) : Prop where
  key_wellFormed : ∀ k ∈ cfg.filterKeys, WellFormed k
  key_fresh : ∀ k ∈ cfg.filterKeys, k ∉ [qKey, sortKey, pageKey, sizeKey]
  field_plain : ∀ field ∈ cfg.sortFields, colon ∉ field
  sort_wellFormed : ∀ field ∈ cfg.sortFields, ∀ dir ∈ [asc, desc], WellFormed (field ++ colon :: dir)

theorem sound_of_mem (h : cfg ∈ configs) : Sound cfg := by
  simp only [configs, List.mem_cons, List.not_mem_nil, or_false] at h
  rcases h with rfl | rfl | rfl
  · exact ⟨by decide, by decide, by decide, by decide⟩
  · exact ⟨by decide, by decide, by decide, by decide⟩
  · exact ⟨by decide, by decide, by decide, by decide⟩

theorem keys_wellFormed : ∀ k ∈ [qKey, sortKey, pageKey, sizeKey], WellFormed k := by decide

theorem scrub_if (v : Text) : (if v ≠ [] then scrub v else []) = scrub v := by
  by_cases hv : v = []
  · rw [hv]
    rfl
  · rw [if_pos hv]

theorem keys_ne : qKey ≠ sortKey ∧ qKey ≠ pageKey ∧ qKey ≠ sizeKey ∧ sortKey ≠ qKey ∧
    sortKey ≠ pageKey ∧ sortKey ≠ sizeKey ∧ pageKey ≠ qKey ∧ pageKey ≠ sortKey ∧ pageKey ≠ sizeKey ∧
    sizeKey ≠ qKey ∧ sizeKey ≠ sortKey ∧ sizeKey ≠ pageKey := by decide

theorem value_linkParams (hcfg : Sound cfg) (k : Text) :
    value (linkParams q sort page size filters cfg) k =
      if k ∈ cfg.filterKeys ∧ (filters.get k).getD [] ≠ [] then scrub ((filters.get k).getD [])
      else if k = sizeKey ∧ size ≠ cfg.size then scrub (text (.finite size))
      else if k = pageKey ∧ (Number.finite 1).lt page then scrub (text page)
      else if k = sortKey ∧ sort ≠ cfg.defaultSort then scrub sort
      else if k = qKey ∧ q ≠ [] then scrub q else [] := by
  rw [linkParams, value_foldl (fun k => (filters.get k).getD []) _ hcfg.key_wellFormed]
  rw [value_setIf (keys_wellFormed sizeKey (by decide)), value_setIf (keys_wellFormed pageKey (by decide)),
    value_setIf (keys_wellFormed sortKey (by decide)), value_setIf (keys_wellFormed qKey (by decide))]
  simp

theorem value_filter (hcfg : Sound cfg) (hk : k ∈ cfg.filterKeys) :
    value (linkParams q sort page size filters cfg) k = scrub ((filters.get k).getD []) := by
  have hfresh := hcfg.key_fresh k hk
  simp only [List.mem_cons, List.not_mem_nil, or_false, not_or] at hfresh
  rw [value_linkParams hcfg]
  simp only [hfresh, hk, true_and, false_and, if_false]
  exact scrub_if _

/-- No filter hides a parameter of the table itself. -/
theorem not_filter (hcfg : Sound cfg) (hk : k ∈ [qKey, sortKey, pageKey, sizeKey]) :
    k ∉ cfg.filterKeys := fun hmem => hcfg.key_fresh k hmem hk

theorem value_q (hcfg : Sound cfg) : value (linkParams q sort page size filters cfg) qKey = scrub q := by
  rw [value_linkParams hcfg]
  simp only [not_filter hcfg (k := qKey) (by decide), keys_ne, true_and, false_and, if_false]
  exact scrub_if q

theorem value_sort (hcfg : Sound cfg) : value (linkParams q sort page size filters cfg) sortKey =
    if sort ≠ cfg.defaultSort then scrub sort else [] := by
  rw [value_linkParams hcfg]
  simp only [not_filter hcfg (k := sortKey) (by decide), keys_ne, true_and, false_and, if_false]

theorem value_page (hcfg : Sound cfg) : value (linkParams q sort page size filters cfg) pageKey =
    if (Number.finite 1).lt page then scrub (text page) else [] := by
  rw [value_linkParams hcfg]
  simp only [not_filter hcfg (k := pageKey) (by decide), keys_ne, true_and, false_and, if_false]

theorem value_size (hcfg : Sound cfg) : value (linkParams q sort page size filters cfg) sizeKey =
    if size ≠ cfg.size then scrub (text (.finite size)) else [] := by
  rw [value_linkParams hcfg]
  simp only [not_filter hcfg (k := sizeKey) (by decide), keys_ne, true_and, false_and, if_false]

theorem sortParam_default (cfg : TableConfig) : sortParam [] cfg = cfg.defaultSort := rfl

theorem sortParam_eq (hcfg : Sound cfg) {field dir : Text} (hfield : field ∈ cfg.sortFields)
    (hdir : dir ∈ [asc, desc]) : sortParam (field ++ colon :: dir) cfg = field ++ colon :: dir := by
  have hplain : colon ∉ dir := by
    revert dir
    decide
  have hsplit : (field ++ colon :: dir).splitOn colon = [field, dir] := by
    rw [List.splitOn_append_cons_self_of_not_mem (hcfg.field_plain field hfield),
      List.splitOn_eq_singleton hplain]
  have hboth : field ∈ cfg.sortFields ∧ (dir = asc ∨ dir = desc) := ⟨hfield, by simpa using hdir⟩
  rw [sortParam, hsplit]
  dsimp only
  rw [if_pos hboth]

theorem read_sort (hcfg : Sound cfg) (hsort : Sorted cfg sort) :
    sortParam (value (linkParams q sort page size filters cfg) sortKey) cfg = sort := by
  rw [value_sort hcfg]
  by_cases hdefault : sort = cfg.defaultSort
  · simp [hdefault, sortParam_default]
  · obtain ⟨field, hfield, dir, hdir, rfl⟩ := hsort.resolve_left hdefault
    have hscrub : scrub (field ++ colon :: dir) = field ++ colon :: dir :=
      hcfg.sort_wellFormed field hfield dir hdir
    rw [if_pos hdefault, hscrub, sortParam_eq hcfg hfield hdir]

theorem read_page (hcfg : Sound cfg) (hpage : Paged page) :
    pageParam (value (linkParams q sort page size filters cfg) pageKey) = page := by
  rw [value_page hcfg]
  have hscrub : scrub (text page) = text page := wellFormed_text hpage.whole
  by_cases hlt : (Number.finite 1).lt page = true
  · rw [if_pos hlt, hscrub]
    exact pageParam_eq hpage (ofUnits_text hpage.whole)
  · rw [if_neg hlt]
    obtain ⟨hwhole, hone⟩ := hpage
    cases hwhole with
    | finite z hz =>
        have hz' : (z : ℚ) = 1 := by
          simp only [Number.lt, Number.le, Bool.and_eq_true, Bool.not_eq_true', decide_eq_true_eq,
            decide_eq_false_iff_not] at hlt hone
          by_contra hne
          exact hlt ⟨hone, fun hle => hne (le_antisymm hle hone)⟩
        rw [hz']
        rfl
    | infinity => exact absurd rfl hlt

theorem whole_size (hsize : size ∈ pageSizes) : Whole (.finite size) := by
  apply Whole.finite
  apply ofNat_eq_finite
  revert size
  decide

theorem sizeParam_text (hsize : size ∈ pageSizes) : sizeParam (text (.finite size)) cfg = size := by
  have hfind : (pageSizes.find? fun s : ℕ => ofUnits (text (.finite size)) = .finite s) = some size := by
    rw [ofUnits_text (whole_size hsize)]
    revert size
    decide
  rw [sizeParam, hfind, Option.getD_some]

theorem read_size (hcfg : Sound cfg) (hsize : Sized cfg size) :
    sizeParam (value (linkParams q sort page size filters cfg) sizeKey) cfg = size := by
  rw [value_size hcfg]
  by_cases hdefault : size = cfg.size
  · rw [if_neg (not_not.mpr hdefault), hdefault]
    rfl
  · have hmem := hsize.resolve_right hdefault
    have hscrub : scrub (text (.finite size)) = text (.finite size) :=
      wellFormed_text (whole_size hmem)
    rw [if_pos hdefault, hscrub, sizeParam_text hmem]

end Read

/-! ## There and back -/

/-- The kept units end neither in white space nor inside a pair. -/
structure CutsCleanly (n : ℕ) (v : Text) : Prop where
  wellFormed : WellFormed ((trim v).take n)
  last : ∀ u ∈ ((trim v).take n).getLast?, isSpace u = false

/-- A text a link brings back. -/
def Stable (v : Text) : Prop := WellFormed v ∧ trim v = v

/-- The same properties with the same values. -/
structure Same (p p' : TableParams) : Prop where
  q : p.q = p'.q
  sort : p.sort = p'.sort
  page : p.page = p'.page
  size : p.size = p'.size
  filters : ∀ k, p.filters.get k = p'.filters.get k
  skip : p.skip = p'.skip
  take : p.take = p'.take

/-- The state with the patched parts replaced, on page 1 when the result set changes. -/
def patched (p : TableParams) (patch : TablePatch) : TableParams :=
  let page := if patch.resets then .finite 1 else patch.page.getD p.page
  let size := patch.size.getD p.size
  { q := patch.q.getD p.q
    sort := patch.sort.getD p.sort
    page := page
    size := size
    filters := patchFilters p.filters patch.filters
    skip := skipOf page size
    take := size }

/-- What a patch may hold: texts the parser leaves as they are, a sort and a size it knows,
and a page. -/
structure PatchOk (cfg : TableConfig) (patch : TablePatch) : Prop where
  q : ∀ q ∈ patch.q, (trim q).take 100 = q
  sort : ∀ sort ∈ patch.sort, ∃ field ∈ cfg.sortFields, ∃ dir ∈ [asc, desc], sort = field ++ colon :: dir
  size : ∀ size ∈ patch.size, size ∈ pageSizes
  page : ∀ page ∈ patch.page, ∃ z : ℕ, 1 ≤ z ∧ ofNat z = .finite z ∧ page = .finite z
  filters : ∀ fs ∈ patch.filters, ∀ e ∈ fs.rows,
    e.1 ∈ cfg.filterKeys ∧ ∀ v ∈ e.2, (trim v).take 60 = v

/-- A state the parser could have yielded, up to the texts. -/
structure Canonical (cfg : TableConfig) (p : TableParams) : Prop where
  q_length : p.q.length ≤ 100
  sort : Sorted cfg p.sort
  page : Paged p.page
  size : Sized cfg p.size
  filters : ∀ k v, p.filters.get k = some v → k ∈ cfg.filterKeys ∧ v ≠ [] ∧ v.length ≤ 60
  skip : p.skip = skipOf p.page p.size
  take : p.take = p.size

def hrefOf (pathname : Text) (p : TableParams) (cfg : TableConfig) : Href :=
  ⟨pathname, linkParams p.q p.sort p.page p.size p.filters cfg⟩

section RoundTrip
variable {cfg : TableConfig} {raw : RawParams} {p : TableParams} {patch : TablePatch} {k v : Text} {n : ℕ}

theorem tableHref_eq (pathname : Text) (p : TableParams) (patch : TablePatch) (cfg : TableConfig) :
    tableHref pathname p patch cfg = hrefOf pathname (patched p patch) cfg := rfl

/-- A text comes back when the encoding and the parser take nothing from it. -/
theorem take_trim_scrub_iff (hlen : v.length ≤ n) : (trim (scrub v)).take n = v ↔ Stable v := by
  constructor
  · intro h
    have hscrub := length_scrub v
    have htake : v.length ≤ (trim (scrub v)).length := by
      rw [← congrArg List.length h, List.length_take]
      omega
    have htrim : trim (scrub v) = scrub v := trim_eq_of_length (by omega)
    have hwell : scrub v = v := by
      rw [htrim, List.take_of_length_le (by omega)] at h
      exact h
    rw [hwell] at htrim
    exact ⟨hwell, htrim⟩
  · rintro ⟨hwell, htrim⟩
    have hscrub : scrub v = v := hwell
    rw [hscrub, htrim, List.take_of_length_le hlen]

theorem cutsCleanly_iff : CutsCleanly n v ↔ Stable ((trim v).take n) := by
  have hhead : ∀ u ∈ ((trim v).take n).head?, isSpace u = false := by
    intro u hu
    apply head_trim v
    cases n with
    | zero => simp at hu
    | succ n => rwa [List.head?_take, if_neg (Nat.succ_ne_zero n)] at hu
  rw [Stable, trim_eq_self_iff]
  constructor
  · intro h
    exact ⟨h.wellFormed, hhead, h.last⟩
  · intro h
    exact ⟨h.1, h.2.2⟩

/-- What the parser leaves as it is only has to be well-formed. -/
theorem stable_of_fixed (h : (trim v).take n = v) : v.length ≤ n ∧ (Stable v ↔ WellFormed v) := by
  have hlen := congrArg List.length h
  rw [List.length_take] at hlen
  have htrim : trim v = v := trim_eq_of_length (by omega)
  refine ⟨by omega, ?_⟩
  constructor
  · intro hstable
    exact hstable.1
  · intro hwell
    exact ⟨hwell, htrim⟩

theorem nonEmpty_inj {v w : Text} : nonEmpty v = nonEmpty w ↔ v = w := by
  unfold nonEmpty
  split_ifs <;> simp_all

theorem get_patchFilter (filters : Record Text Text) (k : Text) (v : Option Text) (k' : Text) :
    (patchFilter filters k v).get k' = if k' = k then v.bind nonEmpty else filters.get k' := by
  cases v with
  | none => exact Record.get_delete filters k k'
  | some v =>
      rw [patchFilter, Option.bind_some, nonEmpty]
      by_cases hv : v = []
      · rw [if_pos hv, if_pos hv]
        exact Record.get_delete filters k k'
      · rw [if_neg hv, if_neg hv]
        exact Record.get_set filters k v k'

theorem get_foldl_patch (rows : List (Text × Option Text)) (hnodup : (rows.map Prod.fst).Nodup)
    (filters : Record Text Text) (k : Text) :
    (rows.foldl (fun filters e => patchFilter filters e.1 e.2) filters).get k =
      match rows.find? fun e => e.1 = k with
      | some e => e.2.bind nonEmpty
      | none => filters.get k := by
  induction rows generalizing filters with
  | nil => rfl
  | cons e rows ih =>
      rw [List.map_cons, List.nodup_cons] at hnodup
      rw [List.foldl_cons, ih hnodup.2]
      by_cases hk : e.1 = k
      · have hrest : (rows.find? fun e => e.1 = k) = none := by
          rw [List.find?_eq_none]
          intro e' he' hkey
          rw [decide_eq_true_eq] at hkey
          apply hnodup.1
          rw [hk, ← hkey]
          exact List.mem_map_of_mem he'
        rw [hrest, List.find?_cons_of_pos (by simpa using hk)]
        dsimp only
        rw [get_patchFilter, if_pos hk.symm]
      · rw [List.find?_cons_of_neg (by simpa using hk)]
        split
        · rfl
        · rw [get_patchFilter, if_neg (Ne.symm hk)]

/-- What a patch says about a filter; `none` leaves it. -/
def patchedFilter (patch : TablePatch) (k : Text) : Option (Option Text) :=
  patch.filters.bind fun fs => fs.get k

theorem get_patchFilters (filters : Record Text Text) (patch : TablePatch) (k : Text) :
    (patchFilters filters patch.filters).get k =
      match patchedFilter patch k with
      | some v => v.bind nonEmpty
      | none => filters.get k := by
  unfold patchedFilter
  cases patch.filters with
  | none => rfl
  | some fs =>
      have hget : fs.get k = (fs.rows.find? fun e => e.1 = k).map Prod.snd := rfl
      rw [patchFilters, get_foldl_patch fs.rows fs.nodup, Option.bind_some, hget]
      cases fs.rows.find? fun e => e.1 = k <;> rfl

theorem canonical_parse (raw : RawParams) (cfg : TableConfig) : Canonical cfg (parseTableParams raw cfg) where
  q_length := List.length_take_le ..
  sort := sorted_sortParam ..
  page := paged_pageParam _
  size := sized_sizeParam ..
  filters k v h := by
    rw [get_filters] at h
    split_ifs at h with hk
    rw [nonEmpty] at h
    split_ifs at h with hv
    rw [Option.some.injEq] at h
    rw [← h]
    exact ⟨hk, hv, List.length_take_le ..⟩
  skip := rfl
  take := rfl

theorem canonical_patched (hp : Canonical cfg p) (hpatch : PatchOk cfg patch) :
    Canonical cfg (patched p patch) where
  q_length := by
    cases hq : patch.q with
    | none => simpa [patched, hq] using hp.q_length
    | some q =>
        have hlen := (stable_of_fixed (hpatch.q q hq)).1
        simpa [patched, hq] using hlen
  sort := by
    cases hsort : patch.sort with
    | none => simpa [patched, hsort] using hp.sort
    | some sort =>
        have hknown := hpatch.sort sort hsort
        rw [patched, hsort]
        exact .inr hknown
  page := by
    dsimp only [patched]
    split_ifs
    · exact paged_one
    · cases hpage : patch.page with
      | none => exact hp.page
      | some page =>
          obtain ⟨z, hz, hkept, rfl⟩ := hpatch.page page hpage
          have hone : (1 : ℚ) ≤ z := by exact_mod_cast hz
          exact ⟨.finite z hkept, by simpa [Number.le] using hone⟩
  size := by
    cases hsize : patch.size with
    | none => simpa [patched, hsize] using hp.size
    | some size =>
        rw [patched, hsize]
        exact .inl (hpatch.size size hsize)
  filters k v h := by
    rw [patched, get_patchFilters] at h
    unfold patchedFilter at h
    split at h
    · next w hw =>
        obtain ⟨fs, hfs, hget⟩ := Option.bind_eq_some_iff.mp hw
        have hrow := hpatch.filters fs hfs _ (Record.get_mem hget)
        obtain ⟨u, hu, hv⟩ := Option.bind_eq_some_iff.mp h
        rw [nonEmpty] at hv
        split_ifs at hv with hne
        rw [Option.some.injEq] at hv
        rw [← hv]
        exact ⟨hrow.1, hne, (stable_of_fixed (hrow.2 u hu)).1⟩
    · exact hp.filters k v h
  skip := rfl
  take := rfl

theorem reread_q (hcfg : Sound cfg) (p : TableParams) (pathname : Text) :
    (parseTableParams (hrefOf pathname p cfg).raw cfg).q = (trim (scrub p.q)).take 100 := by
  rw [parseTableParams, first_raw, hrefOf, value_q hcfg]

/-- All but the texts comes back. -/
theorem reread_state (hcfg : Sound cfg) (hp : Canonical cfg p) (pathname : Text) :
    (parseTableParams (hrefOf pathname p cfg).raw cfg).sort = p.sort ∧
      (parseTableParams (hrefOf pathname p cfg).raw cfg).page = p.page ∧
        (parseTableParams (hrefOf pathname p cfg).raw cfg).size = p.size := by
  dsimp only [parseTableParams]
  rw [first_raw, first_raw, first_raw, hrefOf]
  exact ⟨read_sort hcfg hp.sort, read_page hcfg hp.page, read_size hcfg hp.size⟩

theorem reread_filters (hcfg : Sound cfg) (p : TableParams) (pathname k : Text) :
    (parseTableParams (hrefOf pathname p cfg).raw cfg).filters.get k =
      if k ∈ cfg.filterKeys then nonEmpty ((trim (scrub ((p.filters.get k).getD []))).take 60)
      else none := by
  rw [get_filters]
  split_ifs with hk
  · rw [filterValue, first_raw, hrefOf, value_filter hcfg hk]
  · rfl

/-- A filter is there when its text is not empty. -/
theorem Canonical.get_eq (hp : Canonical cfg p) (k : Text) :
    p.filters.get k = nonEmpty ((p.filters.get k).getD []) ∧ ((p.filters.get k).getD []).length ≤ 60 := by
  cases hget : p.filters.get k with
  | none => simp [nonEmpty]
  | some v =>
      have hv := hp.filters k v hget
      simp [nonEmpty, hv.2.1, hv.2.2]

/-- The state comes back if and only if its texts do. -/
theorem parse_href (hcfg : Sound cfg) (hp : Canonical cfg p) (pathname : Text) :
    Same (parseTableParams (hrefOf pathname p cfg).raw cfg) p ↔
      Stable p.q ∧ ∀ k ∈ cfg.filterKeys, Stable ((p.filters.get k).getD []) := by
  obtain ⟨hsort, hpage, hsize⟩ := reread_state hcfg hp pathname
  constructor
  · intro h
    constructor
    · rw [← take_trim_scrub_iff hp.q_length, ← reread_q hcfg p pathname]
      exact h.q
    · intro k hk
      have hkept := hp.get_eq k
      have hsame := h.filters k
      rw [reread_filters hcfg, if_pos hk] at hsame
      rw [← take_trim_scrub_iff hkept.2]
      exact nonEmpty_inj.mp (hsame.trans hkept.1)
  · intro h
    refine ⟨?_, hsort, hpage, hsize, ?_, ?_, ?_⟩
    · rw [reread_q hcfg]
      exact (take_trim_scrub_iff hp.q_length).mpr h.1
    · intro k
      have hkept := hp.get_eq k
      rw [reread_filters hcfg]
      split_ifs with hk
      · rw [(take_trim_scrub_iff hkept.2).mpr (h.2 k hk)]
        exact hkept.1.symm
      · cases hget : p.filters.get k with
        | none => rfl
        | some v => exact absurd (hp.filters k v hget).1 hk
    · rw [hp.skip, ← hpage, ← hsize]
      rfl
    · rw [hp.take, ← hsize]
      rfl

/-- What a link takes over is well-formed: the texts of the patch, and the others as the
parser cut them, which then must not end in white space. -/
structure Carried (raw : RawParams) (cfg : TableConfig) (patch : TablePatch) : Prop where
  q : match patch.q with
    | some q => WellFormed q
    | none => CutsCleanly 100 (first (raw qKey))
  filters : ∀ k ∈ cfg.filterKeys, match patchedFilter patch k with
    | some v => WellFormed (v.getD [])
    | none => CutsCleanly 60 (first (raw k))

theorem stable_q_iff (hpatch : PatchOk cfg patch) :
    Stable (patched (parseTableParams raw cfg) patch).q ↔
      match patch.q with
      | some q => WellFormed q
      | none => CutsCleanly 100 (first (raw qKey)) := by
  unfold patched
  cases hq : patch.q with
  | none => exact cutsCleanly_iff.symm
  | some q => exact (stable_of_fixed (hpatch.q q hq)).2

theorem getD_nonEmpty (v : Text) : (nonEmpty v).getD [] = v := by
  unfold nonEmpty
  split_ifs with h
  · exact h.symm
  · rfl

theorem stable_filter_iff (hpatch : PatchOk cfg patch) (hk : k ∈ cfg.filterKeys) :
    Stable (((patched (parseTableParams raw cfg) patch).filters.get k).getD []) ↔
      match patchedFilter patch k with
      | some v => WellFormed (v.getD [])
      | none => CutsCleanly 60 (first (raw k)) := by
  dsimp only [patched]
  rw [get_patchFilters]
  cases hfilter : patchedFilter patch k with
  | none =>
      dsimp only
      rw [get_filters, if_pos hk, getD_nonEmpty]
      exact cutsCleanly_iff.symm
  | some v =>
      obtain ⟨fs, hfs, hget⟩ := Option.bind_eq_some_iff.mp hfilter
      have hrow := hpatch.filters fs hfs _ (Record.get_mem hget)
      cases v with
      | none =>
          simp only [Option.bind_none, Option.getD_none]
          exact ⟨fun _ => wellFormed_nil, fun _ => ⟨wellFormed_nil, rfl⟩⟩
      | some v =>
          dsimp only
          rw [Option.bind_some, getD_nonEmpty]
          exact (stable_of_fixed (hrow.2 v rfl)).2

theorem parse_tableHref (hcfg : Sound cfg) (hpatch : PatchOk cfg patch) (raw : RawParams) (pathname : Text) :
    Same (parseTableParams (tableHref pathname (parseTableParams raw cfg) patch cfg).raw cfg)
      (patched (parseTableParams raw cfg) patch) ↔ Carried raw cfg patch := by
  have hp := canonical_patched (canonical_parse raw cfg) hpatch
  rw [tableHref_eq, parse_href hcfg hp, stable_q_iff hpatch]
  constructor
  · rintro ⟨hq, hfilters⟩
    refine ⟨hq, ?_⟩
    intro k hk
    exact (stable_filter_iff hpatch hk).mp (hfilters k hk)
  · intro h
    refine ⟨h.q, ?_⟩
    intro k hk
    exact (stable_filter_iff hpatch hk).mpr (h.filters k hk)

theorem patchOk_none (cfg : TableConfig) : PatchOk cfg .none := by
  constructor <;> simp [TablePatch.none]

/-- A link to the state itself, and one with a change, lead to the state they were made of
if and only if every text they take over was cut cleanly. -/
theorem tableHref_roundTrip_iff (hcfg : cfg ∈ configs) (raw : RawParams) (pathname : Text) :
    (Same (parseTableParams (tableHref pathname (parseTableParams raw cfg) .none cfg).raw cfg)
        (parseTableParams raw cfg) ↔
      CutsCleanly 100 (first (raw qKey)) ∧ ∀ k ∈ cfg.filterKeys, CutsCleanly 60 (first (raw k))) ∧
    ∀ patch, PatchOk cfg patch →
      (Same (parseTableParams (tableHref pathname (parseTableParams raw cfg) patch cfg).raw cfg)
        (patched (parseTableParams raw cfg) patch) ↔ Carried raw cfg patch) := by
  have hsound := sound_of_mem hcfg
  constructor
  · have hunpatched : patched (parseTableParams raw cfg) .none = parseTableParams raw cfg := rfl
    have h := parse_tableHref hsound (patchOk_none cfg) raw pathname
    rw [hunpatched] at h
    rw [h]
    constructor
    · intro hcarried
      exact ⟨hcarried.q, hcarried.filters⟩
    · intro hclean
      exact ⟨hclean.1, hclean.2⟩
  · intro patch hpatch
    exact parse_tableHref hsound hpatch raw pathname

end RoundTrip

/-- Parameters as a query string gives them. -/
def rawOf (fields : List (Text × Text)) : RawParams := fun k => (fields.lookup k).map .text

/-- The fourth page of a search that is left as it is. -/
def nextPage : TablePatch := { TablePatch.none with page := some (.finite 4) }

def janeSearch : RawParams := rawOf [(qKey, ofString " jane "), (pageKey, ofString "3")]

theorem tableHref_roundTrip_search :
    Same (parseTableParams (tableHref [] (parseTableParams janeSearch walletsTable) nextPage
      walletsTable).raw walletsTable) (patched (parseTableParams janeSearch walletsTable) nextPage) := by
  have hpatch : PatchOk walletsTable nextPage := by
    refine ⟨by simp [nextPage, TablePatch.none], by simp [nextPage, TablePatch.none],
      by simp [nextPage, TablePatch.none], ?_, by simp [nextPage, TablePatch.none]⟩
    intro page hpage
    rw [nextPage, Option.mem_some_iff] at hpage
    exact ⟨4, by omega, ofNat_eq_finite (by norm_num), hpage.symm⟩
  have hcarried : Carried janeSearch walletsTable nextPage := by
    refine ⟨cutsCleanly_iff.mpr ⟨by decide, by decide⟩, ?_⟩
    intro k hk
    rw [List.mem_singleton.mp hk]
    exact cutsCleanly_iff.mpr ⟨by decide, by decide⟩
  have hcfg : walletsTable ∈ configs := List.mem_cons_self
  exact ((tableHref_roundTrip_iff hcfg janeSearch []).2 nextPage hpatch).mpr hcarried

/-- A text of 101 units whose hundredth is a space. -/
def longSearch : RawParams := rawOf [(qKey, List.replicate 99 0x78 ++ [0x20, 0x79])]

/-- The space the cut leaves at the end is not in the next state. -/
theorem tableHref_drops_space :
    ¬Same (parseTableParams (tableHref [] (parseTableParams longSearch walletsTable) .none
      walletsTable).raw walletsTable) (parseTableParams longSearch walletsTable) := by
  intro h
  have hq : (parseTableParams (tableHref [] (parseTableParams longSearch walletsTable) .none
      walletsTable).raw walletsTable).q.length = 99 := by decide +kernel
  have hq' : (parseTableParams longSearch walletsTable).q.length = 100 := by decide +kernel
  rw [h.q, hq'] at hq
  cases hq

end MaxOne.TableLinks
