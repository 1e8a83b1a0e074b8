import MaxOne.TableLinks

/-!
# Pages of the staff lists

The `skip` and `take` of a list page, from the text of the address bar to the query DTOs
of the API. The parser takes any page from one on, and no page is too large for it: an
infinite one is refused by `IsInt`, and a page from about `2 ^ 53 / size` on has a `skip`
that is no exact integer.
-/
namespace MaxOne.TablePages
open Library Library.Binary64 Library.Utf16 Library.NumberText MaxOne.TableLinks

def isInt : Number → Bool
  | .finite q => q.den = 1
  | _ => false

/-- `IsOptional`, `IsInt` and `Min(0)`, after the conversion to a number. -/
def skipField (v : Option Text) : Bool :=
  v.all fun s => isInt (ofUnits s) && (Number.finite 0).le (ofUnits s)

/-- `IsOptional`, `IsInt`, `Min(1)`, and `Max(max)` if there is one. -/
def takeField (max : Option ℕ) (v : Option Text) : Bool :=
  v.all fun s => isInt (ofUnits s) && (Number.finite 1).le (ofUnits s) &&
    max.all fun max : ℕ => (ofUnits s).le (.finite max)

/-- The `skip` and `take` of a query DTO. -/
def pagingFields (max : Option ℕ) (sp : SearchParams) : Bool :=
  skipField (sp.get skipKey) && takeField max (sp.get takeKey)

def listWalletsQueryDto : SearchParams → Bool := pagingFields (some 100)

def listUsersQueryDto : SearchParams → Bool := pagingFields (some 100)

/-- The cap is applied in the service. -/
def auditQueryDto : SearchParams → Bool := pagingFields none

/-- `Number.MAX_SAFE_INTEGER`. -/
def maxSafeInteger : ℕ := 2 ^ 53 - 1

/-- The page is a number from one on, what it skips is exact, and the lists accept it. -/
structure Works (raw : RawParams) (cfg : TableConfig) : Prop where
  exact : ∃ page skip : ℕ, 1 ≤ page ∧ (parseTableParams raw cfg).page = .finite page ∧
    (parseTableParams raw cfg).skip = .finite skip ∧ skip ≤ maxSafeInteger
  accepted : ∀ sort, ∀ dto ∈ [listWalletsQueryDto, listUsersQueryDto, auditQueryDto],
    dto (apiQuery (parseTableParams raw cfg) sort) = true
  take : 1 ≤ (parseTableParams raw cfg).take ∧ (parseTableParams raw cfg).take ≤ 100

/-- The size asked for, 20 if it is none of the sizes. -/
def requestedSize (raw : RawParams) : ℕ :=
  if ofUnits (first (raw sizeKey)) = .finite 50 then 50
  else if ofUnits (first (raw sizeKey)) = .finite 100 then 100 else 20

/-- The number typed as the page is not infinite, and what it skips is at most the largest
exact integer. -/
def PageFits (raw : RawParams) : Prop :=
  match ofUnits (first (raw pageKey)) with
  | .finite q => (⌊q⌋ - 1) * requestedSize raw ≤ maxSafeInteger
  | .infinity negative => negative = true
  | .nan => True

section Skip
variable {z size k : ℕ} {page : Number}

/-- Up to `2 ^ 53` the arithmetic is exact. -/
theorem skipOf_exact (hz : 1 ≤ z) (hsize : 1 ≤ size) (hle : (z - 1) * size ≤ 2 ^ 53) :
    skipOf (.finite z) size = .finite ((z - 1) * size : ℕ) := by
  have hbefore : z - 1 ≤ 2 ^ 53 := (Nat.le_mul_of_pos_right _ hsize).trans hle
  have hsub : (z : ℚ) + -1 = ((z - 1 : ℕ) : ℚ) := by
    rw [Nat.cast_sub hz, Nat.cast_one, sub_eq_add_neg]
  have hmul : ((z - 1 : ℕ) : ℚ) * size = (((z - 1) * size : ℕ) : ℚ) := by
    rw [Nat.cast_mul]
  have hadd : (Number.finite z).add (.finite (-1)) = .finite ((z - 1 : ℕ) : ℚ) := by
    rw [Number.add, hsub]
    exact ofNat_eq_finite hbefore
  rw [skipOf, hadd, Number.mul, hmul]
  exact ofNat_eq_finite hle

/-- Beyond it, what is skipped is no less. -/
theorem skipOf_large (hz : 1 ≤ z) (hsize : 1 ≤ size) (hlarge : 2 ^ 53 ≤ (z - 1) * size)
    (h : skipOf (.finite z) size = .finite k) : 2 ^ 53 ≤ k := by
  have hsub : (z : ℚ) + -1 = ((z - 1 : ℕ) : ℚ) := by
    rw [Nat.cast_sub hz, Nat.cast_one, sub_eq_add_neg]
  have hsizeq : (1 : ℚ) ≤ size := by exact_mod_cast hsize
  have hk : ∀ q : ℚ, 2 ^ 53 ≤ q * size → ofRat (q * size) = .finite k → 2 ^ 53 ≤ k := by
    intro q hq hround
    have hcast : (2 ^ 53 : ℚ) ≤ k := le_of_ofRat hround hq
    exact_mod_cast hcast
  rcases le_or_gt (z - 1) (2 ^ 53) with hbefore | hafter
  · have hadd : (Number.finite z).add (.finite (-1)) = .finite ((z - 1 : ℕ) : ℚ) := by
      rw [Number.add, hsub]
      exact ofNat_eq_finite hbefore
    rw [skipOf, hadd] at h
    refine hk _ ?_ h
    exact_mod_cast hlarge
  · rw [skipOf, Number.add, hsub] at h
    cases hround : ofRat ((z - 1 : ℕ) : ℚ) with
    | finite r =>
        rw [hround] at h
        have hr : 2 ^ 53 ≤ r := le_of_ofRat hround (by exact_mod_cast hafter.le)
        refine hk r ?_ h
        nlinarith
    | infinity negative =>
        have hne : (size : ℚ) ≠ 0 := by linarith
        rw [hround, Number.mul, if_neg hne] at h
        cases h
    | nan =>
        rw [hround] at h
        cases h

/-- What is skipped is an exact integer if and only if its exact value is. -/
theorem skipOf_iff (hz : 1 ≤ z) (hsize : 1 ≤ size) :
    (∃ k : ℕ, skipOf (.finite z) size = .finite k ∧ k ≤ maxSafeInteger) ↔
      (z - 1) * size ≤ maxSafeInteger := by
  unfold maxSafeInteger
  constructor
  · rintro ⟨k, hskip, hk⟩
    by_contra hlarge
    have hle := skipOf_large hz hsize (by omega) hskip
    omega
  · intro hle
    exact ⟨_, skipOf_exact hz hsize (by omega), hle⟩

end Skip

section Query
variable {raw : RawParams} {cfg : TableConfig} {sp : SearchParams} {k : Text} {n : Number}

theorem get_foldl_rows (rows : List (Text × Text)) (sp : SearchParams) (k : Text)
    (h : ∀ e ∈ rows, scrub e.1 ≠ k) :
    (rows.foldl (fun sp e => setParam sp e.1 e.2) sp).get k = sp.get k := by
  induction rows generalizing sp with
  | nil => rfl
  | cons e rows ih =>
      have hne := h e List.mem_cons_self
      rw [List.foldl_cons, ih _ fun e he => h e (List.mem_cons_of_mem _ he), setParam, Record.get_set,
        if_neg (Ne.symm hne)]

/-- A filter is under one of the keys of the table. -/
theorem filter_key {e : Text × Text} (h : e ∈ (parseTableParams raw cfg).filters.rows) :
    e.1 ∈ cfg.filterKeys := by
  have hget : (parseTableParams raw cfg).filters.get e.1 = some e.2 := by
    rw [Record.get, Table.find_of_mem h]
    rfl
  exact ((canonical_parse raw cfg).filters e.1 e.2 hget).1

theorem paging_fresh (hcfg : cfg ∈ configs) : ∀ k ∈ cfg.filterKeys, scrub k ≠ skipKey ∧ scrub k ≠ takeKey := by
  simp only [configs, List.mem_cons, List.not_mem_nil, or_false] at hcfg
  rcases hcfg with rfl | rfl | rfl <;> decide

theorem get_skip (hcfg : cfg ∈ configs) (raw : RawParams) (sort : Bool) :
    (apiQuery (parseTableParams raw cfg) sort).get skipKey =
      some (scrub (text (parseTableParams raw cfg).skip)) := by
  have hskip : scrub skipKey = skipKey := by decide
  have htake : scrub takeKey = takeKey := by decide
  have hne : skipKey ≠ takeKey := by decide
  rw [apiQuery, get_foldl_rows _ _ _ fun e he => (paging_fresh hcfg e.1 (filter_key he)).1]
  rw [setParam, Record.get_set, htake, if_neg hne, setParam, Record.get_set, hskip, if_pos rfl]

theorem get_take (hcfg : cfg ∈ configs) (raw : RawParams) (sort : Bool) :
    (apiQuery (parseTableParams raw cfg) sort).get takeKey =
      some (scrub (text (.finite (parseTableParams raw cfg).take))) := by
  have htake : scrub takeKey = takeKey := by decide
  rw [apiQuery, get_foldl_rows _ _ _ fun e he => (paging_fresh hcfg e.1 (filter_key he)).2]
  rw [setParam, Record.get_set, htake, if_pos rfl]

/-- A whole number is accepted as it is. -/
theorem ofUnits_scrub_text (h : Whole n) : ofUnits (scrub (text n)) = n := by
  have hscrub : scrub (text n) = text n := wellFormed_text h
  rw [hscrub, ofUnits_text h]

theorem size_eq (hcfg : cfg ∈ configs) (raw : RawParams) :
    (parseTableParams raw cfg).size = requestedSize raw := by
  have hdefault : cfg.size = 20 := by
    simp only [configs, List.mem_cons, List.not_mem_nil, or_false] at hcfg
    rcases hcfg with rfl | rfl | rfl <;> rfl
  dsimp only [parseTableParams]
  rw [sizeParam, hdefault, requestedSize, pageSizes]
  by_cases h20 : ofUnits (first (raw sizeKey)) = .finite 20
  · rw [h20]
    decide
  · by_cases h50 : ofUnits (first (raw sizeKey)) = .finite 50
    · rw [h50]
      decide
    · by_cases h100 : ofUnits (first (raw sizeKey)) = .finite 100
      · rw [h100]
        decide
      · simp [h20, h50, h100]

theorem requestedSize_mem (raw : RawParams) : requestedSize raw ∈ pageSizes := by
  unfold requestedSize
  split_ifs <;> decide

theorem size_bounds : ∀ size ∈ pageSizes, 1 ≤ size ∧ size ≤ 100 := by decide

end Query

/-! ## The pages that work -/

section Works
variable {raw : RawParams} {cfg : TableConfig} {z size : ℕ}

theorem isInt_natCast (z : ℕ) : isInt (.finite z) = true := by
  rw [isInt, Rat.den_natCast]
  rfl

theorem skipField_natCast (hz : ofNat z = .finite z) :
    skipField (some (scrub (text (.finite z)))) = true := by
  have hread : ofUnits (scrub (text (.finite z))) = .finite z := ofUnits_scrub_text (.finite z hz)
  simp [skipField, hread, isInt_natCast, Number.le]

theorem takeField_size (hsize : size ∈ pageSizes) {max : Option ℕ} (hmax : ∀ m ∈ max, m = 100) :
    takeField max (some (scrub (text (.finite size)))) = true := by
  have hread : ofUnits (scrub (text (.finite size))) = .finite size :=
    ofUnits_scrub_text (whole_size hsize)
  have hbounds := size_bounds size hsize
  have hlow : (1 : ℚ) ≤ size := by exact_mod_cast hbounds.1
  have hhigh : (size : ℚ) ≤ 100 := by exact_mod_cast hbounds.2
  cases max with
  | none => simp [takeField, hread, isInt_natCast, Number.le, hlow]
  | some m =>
      rw [hmax m rfl]
      simpa [takeField, hread, isInt_natCast, Number.le, hlow] using hhigh

/-- A list accepts what it is sent when the skip is exact. -/
theorem pagingFields_apiQuery (hcfg : cfg ∈ configs) {k : ℕ}
    (hskip : (parseTableParams raw cfg).skip = .finite k) (hk : k ≤ maxSafeInteger) (sort : Bool)
    {max : Option ℕ} (hmax : ∀ m ∈ max, m = 100) :
    pagingFields max (apiQuery (parseTableParams raw cfg) sort) = true := by
  have hsize : (parseTableParams raw cfg).size ∈ pageSizes := size_eq hcfg raw ▸ requestedSize_mem raw
  have hexact : ofNat k = .finite k := by
    apply ofNat_eq_finite
    unfold maxSafeInteger at hk
    omega
  have htake : takeField max (some (scrub (text (.finite (parseTableParams raw cfg).take)))) = true :=
    takeField_size hsize hmax
  rw [pagingFields, get_skip hcfg, hskip, skipField_natCast hexact, get_take hcfg, htake, Bool.and_true]

theorem accepts (hcfg : cfg ∈ configs) {k : ℕ} (hskip : (parseTableParams raw cfg).skip = .finite k)
    (hk : k ≤ maxSafeInteger) (sort : Bool) :
    ∀ dto ∈ [listWalletsQueryDto, listUsersQueryDto, auditQueryDto],
      dto (apiQuery (parseTableParams raw cfg) sort) = true := by
  have hcapped : ∀ m ∈ some 100, m = 100 := by simp
  have hopen : ∀ m ∈ (none : Option ℕ), m = 100 := by simp
  intro dto hdto
  simp only [List.mem_cons, List.not_mem_nil, or_false] at hdto
  rcases hdto with rfl | rfl | rfl
  · exact pagingFields_apiQuery hcfg hskip hk sort hcapped
  · exact pagingFields_apiQuery hcfg hskip hk sort hcapped
  · exact pagingFields_apiQuery hcfg hskip hk sort hopen

/-- The pages that are numbers. -/
theorem page_eq (hfits : PageFits raw) : ∃ z : ℕ, 1 ≤ z ∧ pageParam (first (raw pageKey)) = .finite z ∧
    (z - 1) * requestedSize raw ≤ maxSafeInteger := by
  unfold PageFits at hfits
  cases hv : ofUnits (first (raw pageKey)) with
  | nan =>
      refine ⟨1, le_refl 1, ?_, by omega⟩
      rw [pageParam, hv]
      decide
  | infinity negative =>
      rw [hv] at hfits
      dsimp only at hfits
      refine ⟨1, le_refl 1, ?_, by omega⟩
      rw [pageParam, hv, hfits]
      decide
  | finite q =>
      rw [hv] at hfits
      dsimp only at hfits
      obtain ⟨z, hz⟩ := Int.eq_ofNat_of_zero_le (by omega : 0 ≤ max 1 ⌊q⌋)
      have hone : 1 ≤ z := by omega
      refine ⟨z, hone, ?_, ?_⟩
      · rw [pageParam_finite hv, hz]
        rfl
      · rcases le_or_gt ⌊q⌋ 1 with hlow | hhigh
        · have hz1 : z = 1 := by omega
          rw [hz1]
          omega
        · have hfloor : ⌊q⌋ = z := by omega
          have hsub : ((z - 1 : ℕ) : ℤ) = ⌊q⌋ - 1 := by omega
          have hcast : (((z - 1) * requestedSize raw : ℕ) : ℤ) ≤ maxSafeInteger := by
            rw [Nat.cast_mul, hsub]
            exact hfits
          exact_mod_cast hcast

theorem fits_of_page (h : pageParam (first (raw pageKey)) = .finite z)
    (hle : (z - 1) * requestedSize raw ≤ maxSafeInteger) : PageFits raw := by
  unfold PageFits
  cases hv : ofUnits (first (raw pageKey)) with
  | nan => trivial
  | infinity negative =>
      cases negative with
      | true => rfl
      | false =>
          rw [pageParam, hv] at h
          cases h
  | finite q =>
      rw [pageParam_finite hv, Number.finite.injEq] at h
      have hz : max 1 ⌊q⌋ = (z : ℤ) := by exact_mod_cast h
      have hfloor : ⌊q⌋ - 1 ≤ ((z - 1 : ℕ) : ℤ) := by omega
      calc (⌊q⌋ - 1) * requestedSize raw ≤ ((z - 1 : ℕ) : ℤ) * requestedSize raw :=
            mul_le_mul_of_nonneg_right hfloor (by omega)
        _ = (((z - 1) * requestedSize raw : ℕ) : ℤ) := by rw [Nat.cast_mul]
        _ ≤ maxSafeInteger := by exact_mod_cast hle

theorem skip_eq (hcfg : cfg ∈ configs) (raw : RawParams) : (parseTableParams raw cfg).skip =
    skipOf (pageParam (first (raw pageKey))) (requestedSize raw) := by
  rw [← size_eq hcfg raw]
  rfl

/-- A list page works up to the first page whose skip is no exact integer, and then skips
the pages before it. -/
theorem works_iff (hcfg : cfg ∈ configs) (raw : RawParams) :
    (Works raw cfg ↔ PageFits raw) ∧ (PageFits raw → ∃ z : ℕ,
      (parseTableParams raw cfg).page = .finite z ∧ (parseTableParams raw cfg).skip =
        .finite ((z - 1) * (parseTableParams raw cfg).size : ℕ)) := by
  have hskip := skip_eq hcfg raw
  have hbounds := size_bounds _ (requestedSize_mem raw)
  have hexact : PageFits raw → ∃ z : ℕ, 1 ≤ z ∧ (parseTableParams raw cfg).page = .finite z ∧
      (parseTableParams raw cfg).skip = .finite ((z - 1) * requestedSize raw : ℕ) ∧
        (z - 1) * requestedSize raw ≤ maxSafeInteger := by
    intro hfits
    obtain ⟨z, hz, hpage, hle⟩ := page_eq hfits
    refine ⟨z, hz, hpage, ?_, hle⟩
    rw [hskip, hpage]
    apply skipOf_exact hz hbounds.1
    unfold maxSafeInteger at hle
    omega
  constructor
  · constructor
    · intro h
      obtain ⟨z, k, hz, hpage, hk, hle⟩ := h.exact
      have hpage' : pageParam (first (raw pageKey)) = .finite z := hpage
      rw [hskip, hpage'] at hk
      exact fits_of_page hpage' ((skipOf_iff hz hbounds.1).mp ⟨k, hk, hle⟩)
    · intro hfits
      obtain ⟨z, hz, hpage, hk, hle⟩ := hexact hfits
      refine ⟨⟨z, _, hz, hpage, hk, hle⟩, accepts hcfg hk hle, ?_⟩
      have htake : (parseTableParams raw cfg).take = requestedSize raw := size_eq hcfg raw
      rw [htake]
      exact hbounds
  · intro hfits
    obtain ⟨z, -, hpage, hk, -⟩ := hexact hfits
    rw [size_eq hcfg raw]
    exact ⟨z, hpage, hk⟩

end Works

/-- The third page of the wallets. -/
theorem works_iff_third : Works (rawOf [(pageKey, ofString "3")]) walletsTable := by
  have hcfg : walletsTable ∈ configs := List.mem_cons_self
  have hread : ofUnits (first (rawOf [(pageKey, ofString "3")] pageKey)) = .finite 3 := by
    decide +kernel
  have hfits : PageFits (rawOf [(pageKey, ofString "3")]) := by
    unfold PageFits
    rw [hread]
    decide +kernel
  exact (works_iff hcfg _).1.mpr hfits

/-- `?page=1e400` is an infinite page: its skip is refused by every list. -/
theorem infinite_page_refused :
    (parseTableParams (rawOf [(pageKey, ofString "1e400")]) walletsTable).page = .infinity false ∧
      listWalletsQueryDto (apiQuery (parseTableParams (rawOf [(pageKey, ofString "1e400")])
        walletsTable) true) = false ∧
      ¬Works (rawOf [(pageKey, ofString "1e400")]) walletsTable := by
  have hpage : (parseTableParams (rawOf [(pageKey, ofString "1e400")]) walletsTable).page =
      .infinity false := by decide +kernel
  have hrefused : listWalletsQueryDto (apiQuery (parseTableParams
      (rawOf [(pageKey, ofString "1e400")]) walletsTable) true) = false := by decide +kernel
  refine ⟨hpage, hrefused, ?_⟩
  intro h
  have haccepted := h.accepted true listWalletsQueryDto List.mem_cons_self
  rw [hrefused] at haccepted
  cases haccepted

end MaxOne.TablePages
