import Mathlib.Tactic

/-!
# Tables with a primary key

A table is a list of rows, oldest first, whose keys are distinct; the proof is
part of the value, so no statement below can build a table with two rows of one
key. `insert` refuses a key that is present, `modify` rewrites the row of one
key and cannot change the key, `deleteWhere` drops every matching row. Each
operation comes with what it does to `find` and to membership; later proofs
use only these.
-/
namespace Library

structure Table (Row : Type*) {Key : Type*} (key : Row → Key) where
  rows : List Row
  nodup : (rows.map key).Nodup

variable {Row Key : Type*} {key : Row → Key}

namespace Table

def empty : Table Row key := ⟨[], List.nodup_nil⟩

variable [DecidableEq Key]

def find (t : Table Row key) (k : Key) : Option Row := t.rows.find? fun r => key r = k

/-- `none`: the key is taken. -/
def insert (t : Table Row key) (r : Row) : Option (Table Row key) :=
  if h : key r ∈ t.rows.map key then none
  else some ⟨t.rows ++ [r], by
    rw [List.map_append, List.map_singleton]
    exact List.nodup_append'.mpr ⟨t.nodup, List.nodup_singleton _, by simpa using h⟩⟩

/-- Rewrite the row of one key, if it is there. -/
def modify (t : Table Row key) (k : Key) (f : Row → Row) (hf : ∀ r, key (f r) = key r) :
    Table Row key :=
  ⟨t.rows.map fun r => if key r = k then f r else r, by
    have hkeys : (t.rows.map fun r => if key r = k then f r else r).map key =
        t.rows.map key := by
      rw [List.map_map]
      refine List.map_congr_left fun r _ => ?_
      simp only [Function.comp_apply]
      split_ifs
      · exact hf r
      · rfl
    rw [hkeys]
    exact t.nodup⟩

def deleteWhere (t : Table Row key) (p : Row → Bool) : Table Row key :=
  ⟨t.rows.filter fun r => !p r, t.nodup.sublist (List.filter_sublist.map key)⟩

/-- Rewrite every matching row. -/
def modifyWhere (t : Table Row key) (p : Row → Bool) (f : Row → Row) (hf : ∀ r, key (f r) = key r) :
    Table Row key :=
  ⟨t.rows.map fun r => if p r then f r else r, by
    have hkeys : (t.rows.map fun r => if p r then f r else r).map key = t.rows.map key := by
      rw [List.map_map]
      refine List.map_congr_left fun r _ => ?_
      simp only [Function.comp_apply]
      split_ifs
      · exact hf r
      · rfl
    rw [hkeys]
    exact t.nodup⟩

omit [DecidableEq Key] in
@[simp] theorem empty_rows : (empty : Table Row key).rows = [] := rfl

@[simp] theorem find_empty (k : Key) : (empty : Table Row key).find k = none := rfl

theorem find_key {t : Table Row key} {k : Key} {r : Row} (h : t.find k = some r) :
    key r = k := by
  simpa using List.find?_some h

theorem mem_of_find {t : Table Row key} {k : Key} {r : Row} (h : t.find k = some r) :
    r ∈ t.rows := List.mem_of_find?_eq_some h

omit [DecidableEq Key] in
/-- Two rows of one key are one row. -/
theorem eq_of_key {t : Table Row key} {r u : Row} (hr : r ∈ t.rows) (hu : u ∈ t.rows)
    (h : key r = key u) : r = u := List.inj_on_of_nodup_map t.nodup hr hu h

theorem find_of_mem {t : Table Row key} {r : Row} (hr : r ∈ t.rows) :
    t.find (key r) = some r := by
  have hs : (t.find (key r)).isSome := by
    rw [find, List.find?_isSome]
    exact ⟨r, hr, by simp⟩
  obtain ⟨u, hu⟩ := Option.isSome_iff_exists.mp hs
  rw [hu, eq_of_key (mem_of_find hu) hr (find_key hu)]

theorem mem_iff_find {t : Table Row key} {r : Row} :
    r ∈ t.rows ↔ t.find (key r) = some r :=
  ⟨find_of_mem, mem_of_find⟩

theorem find_eq_none {t : Table Row key} {k : Key} :
    t.find k = none ↔ ∀ r ∈ t.rows, key r ≠ k := by
  simp [find, List.find?_eq_none]

section Insert
variable {t u : Table Row key} {r : Row}

theorem insert_rows (h : t.insert r = some u) : u.rows = t.rows ++ [r] := by
  unfold insert at h
  split_ifs at h
  rw [Option.some.injEq] at h
  rw [← h]

theorem mem_insert (h : t.insert r = some u) {v : Row} : v ∈ u.rows ↔ v ∈ t.rows ∨ v = r := by
  rw [insert_rows h, List.mem_append, List.mem_singleton]

theorem insert_fresh (h : t.insert r = some u) : t.find (key r) = none := by
  unfold insert at h
  split_ifs at h with hk
  rw [find_eq_none]
  intro v hv he
  exact hk (List.mem_map.mpr ⟨v, hv, he⟩)

theorem insert_refused (h : t.insert r = none) : t.find (key r) ≠ none := by
  unfold insert at h
  split_ifs at h with hk
  obtain ⟨v, hv, hkv⟩ := List.mem_map.mp hk
  intro hfree
  exact find_eq_none.mp hfree v hv hkv

theorem find_insert (h : t.insert r = some u) (k : Key) :
    u.find k = if k = key r then some r else t.find k := by
  have hfresh := insert_fresh h
  rw [find, insert_rows h, List.find?_append]
  split_ifs with hk
  · subst hk
    change (t.find (key r)).or _ = _
    simp [hfresh]
  · change (t.find k).or _ = _
    have : List.find? (fun v => decide (key v = k)) [r] = none := by
      simp [Ne.symm hk]
    rw [this, Option.or_none]

/-- An insertion keeps every row that was there. -/
theorem find_insert_of_some (h : t.insert r = some u) {k : Key} {v : Row}
    (hv : t.find k = some v) : u.find k = some v := by
  rw [find_insert h]
  split_ifs with hk
  · subst hk
    simp [insert_fresh h] at hv
  · exact hv

end Insert

section Modify
variable {t : Table Row key} {k : Key} {f : Row → Row} {hf : ∀ r, key (f r) = key r}

theorem modify_rows : (t.modify k f hf).rows = t.rows.map fun r => if key r = k then f r else r :=
  rfl

@[simp] theorem find_modify (k' : Key) :
    (t.modify k f hf).find k' = if k' = k then (t.find k).map f else t.find k' := by
  have hp : (fun r => decide (key r = k')) ∘ (fun r => if key r = k then f r else r) =
      fun r => decide (key r = k') := by
    funext r
    simp only [Function.comp_apply]
    split_ifs
    · rw [hf]
    · rfl
  rw [find, modify_rows, List.find?_map, hp]
  change (t.find k').map _ = _
  split_ifs with hk
  · subst hk
    cases hr : t.find k' with
    | none => rfl
    | some r => simp [find_key hr]
  · cases hr : t.find k' with
    | none => rfl
    | some r =>
        have hne : key r ≠ k := by rw [find_key hr]; exact hk
        simp [hne]

theorem find_modify_ne {k' : Key} (h : k' ≠ k) : (t.modify k f hf).find k' = t.find k' := by
  rw [find_modify, if_neg h]

end Modify

omit [DecidableEq Key] in
theorem mem_modifyWhere {t : Table Row key} {p : Row → Bool} {f : Row → Row}
    {hf : ∀ r, key (f r) = key r} {u : Row} : u ∈ (t.modifyWhere p f hf).rows ↔
      ∃ r ∈ t.rows, u = if p r then f r else r := by
  rw [modifyWhere, List.mem_map]
  exact exists_congr fun r => and_congr_right fun _ => eq_comm

theorem find_modifyWhere {t : Table Row key} {p : Row → Bool} {f : Row → Row}
    {hf : ∀ r, key (f r) = key r} (k : Key) :
    (t.modifyWhere p f hf).find k = (t.find k).map fun r => if p r then f r else r := by
  have hp : (fun r => decide (key r = k)) ∘ (fun r => if p r then f r else r) =
      fun r => decide (key r = k) := by
    funext r
    simp only [Function.comp_apply]
    split_ifs
    · rw [hf]
    · rfl
  rw [find, modifyWhere, List.find?_map, hp]
  rfl

section Delete
variable {t : Table Row key} {p : Row → Bool}

omit [DecidableEq Key] in
@[simp] theorem mem_deleteWhere {r : Row} :
    r ∈ (t.deleteWhere p).rows ↔ r ∈ t.rows ∧ p r = false := by
  simp [deleteWhere]

theorem find_deleteWhere (k : Key) :
    (t.deleteWhere p).find k = (t.find k).filter fun r => !p r := by
  cases hr : t.find k with
  | none =>
      rw [find_eq_none] at hr
      rw [Option.filter_none, find_eq_none]
      intro r hmem
      exact hr r (mem_deleteWhere.mp hmem).1
  | some r =>
      have hkey := find_key hr
      rw [Option.filter_some]
      split_ifs with hpr
      · rw [Bool.not_eq_true'] at hpr
        rw [← hkey]
        exact find_of_mem (mem_deleteWhere.mpr ⟨mem_of_find hr, hpr⟩)
      · rw [find_eq_none]
        intro u hu hku
        obtain ⟨hu, hpu⟩ := mem_deleteWhere.mp hu
        rw [eq_of_key hu (mem_of_find hr) (hku.trans hkey.symm)] at hpu
        simp [hpu] at hpr

end Delete

theorem mem_modify {t : Table Row key} {k : Key} {f : Row → Row} {hf : ∀ r, key (f r) = key r}
    {u : Row} : u ∈ (t.modify k f hf).rows ↔
      (u ∈ t.rows ∧ key u ≠ k) ∨ ∃ r, t.find k = some r ∧ u = f r := by
  rw [mem_iff_find, find_modify]
  split_ifs with hk
  · rw [Option.map_eq_some_iff]
    constructor
    · rintro ⟨r, hr, rfl⟩
      exact .inr ⟨r, hr, rfl⟩
    · rintro (⟨-, hne⟩ | ⟨r, hr, rfl⟩)
      · exact absurd hk hne
      · exact ⟨r, hr, rfl⟩
  · rw [← mem_iff_find]
    constructor
    · exact fun hu => .inl ⟨hu, hk⟩
    · rintro (⟨hu, -⟩ | ⟨r, hr, rfl⟩)
      · exact hu
      · exact absurd ((hf r).trans (find_key hr)) hk

/-- A selection does not see a rewritten row it selects neither before nor after. -/
theorem filter_modify {t : Table Row key} {k : Key} {f : Row → Row}
    {hf : ∀ r, key (f r) = key r} {p : Row → Bool}
    (h : ∀ r, t.find k = some r → p r = false ∧ p (f r) = false) :
    (t.modify k f hf).rows.filter p = t.rows.filter p := by
  rw [modify_rows]
  have hrows : ∀ r ∈ t.rows, key r = k → p r = false ∧ p (f r) = false := by
    rintro r hr rfl
    exact h r (find_of_mem hr)
  generalize t.rows = rows at hrows
  induction rows with
  | nil => rfl
  | cons r rows ih =>
      have hrest := ih fun u hu => hrows u (List.mem_cons_of_mem _ hu)
      rw [List.map_cons, List.filter_cons, List.filter_cons, hrest]
      by_cases hk : key r = k
      · simp [hk, hrows r List.mem_cons_self hk]
      · simp [hk]

/-- One row is rewritten in its place. -/
theorem modify_split {t : Table Row key} {k : Key} {f : Row → Row} {hf : ∀ r, key (f r) = key r}
    {r : Row} (h : t.find k = some r) : ∃ before after, t.rows = before ++ r :: after ∧
      (t.modify k f hf).rows = before ++ f r :: after := by
  obtain ⟨before, after, hrows⟩ := List.append_of_mem (mem_of_find h)
  have hkr : key r = k := find_key h
  have hnodup := t.nodup
  rw [hrows, List.map_append, List.map_cons, List.nodup_append'] at hnodup
  have hafter := (List.nodup_cons.mp hnodup.2.1).1
  have hother : ∀ us : List Row, (∀ v ∈ us, key v ≠ key r) →
      us.map (fun v => if key v = k then f v else v) = us := by
    intro us hus
    refine (List.map_congr_left fun v hv => ?_).trans (List.map_id us)
    rw [if_neg (hkr ▸ hus v hv), id]
  refine ⟨before, after, hrows, ?_⟩
  rw [modify_rows, hrows, List.map_append, List.map_cons, if_pos hkr, hother before, hother after]
  · intro v hv he
    exact hafter (he ▸ List.mem_map_of_mem hv)
  · intro v hv he
    exact hnodup.2.2 (List.mem_map_of_mem hv) (he ▸ List.mem_cons_self)

/-- A row comes into a selection by being rewritten. -/
theorem filter_modify_perm {t : Table Row key} {k : Key} {f : Row → Row}
    {hf : ∀ r, key (f r) = key r} {p : Row → Bool} {r : Row} (h : t.find k = some r)
    (hp : p r = false) (hpf : p (f r) = true) :
    ((t.modify k f hf).rows.filter p).Perm (t.rows.filter p ++ [f r]) := by
  have hsplit : ∃ before after, t.rows = before ++ r :: after ∧
      (t.modify k f hf).rows = before ++ f r :: after := modify_split h
  obtain ⟨before, after, hrows, hmodified⟩ := hsplit
  rw [hrows, hmodified, List.filter_append, List.filter_cons_of_pos hpf, List.filter_append,
    List.filter_cons_of_neg (by simp [hp]), List.append_assoc]
  have hswap : (f r :: after.filter p).Perm (after.filter p ++ [f r]) :=
    (List.perm_append_singleton (f r) (after.filter p)).symm
  exact hswap.append_left _

/-! ## What a step adds to a selection -/

/-- Rows of `u` that satisfy `p` and whose key had no such row in `t`. -/
def gained (p : Row → Bool) (t u : Table Row key) : List Row :=
  u.rows.filter fun r => p r && !(t.find (key r)).any p

section Gained
variable {p : Row → Bool} {t u v : Table Row key} {r : Row}

theorem mem_gained : r ∈ gained p t u ↔ r ∈ u.rows ∧ p r = true ∧
    ∀ r', t.find (key r) = some r' → p r' = false := by
  rw [gained, List.mem_filter, Bool.and_eq_true, Bool.not_eq_true', Option.any_eq_false]

theorem gained_eq_nil (h : ∀ r ∈ u.rows, p r = true → r ∈ t.rows) : gained p t u = [] := by
  rw [List.eq_nil_iff_forall_not_mem]
  intro r hr
  obtain ⟨hu, hp, hold⟩ := mem_gained.mp hr
  rw [hold r (find_of_mem (h r hu hp))] at hp
  cases hp

theorem gained_self : gained p t t = [] := gained_eq_nil fun _ hr _ => hr

theorem gained_insert (h : t.insert r = some u) : gained p t u = if p r then [r] else [] := by
  have hold : t.rows.filter (fun v => p v && !(t.find (key v)).any p) = [] := gained_self
  rw [gained, insert_rows h, List.filter_append, hold, List.nil_append, List.filter_singleton,
    insert_fresh h]
  simp

theorem gained_insert_insert {r' : Row} (h : t.insert r = some u) (h' : u.insert r' = some v) :
    gained p t v = gained p t u ++ gained p u v := by
  have hold : u.rows.filter (fun w => p w && !(t.find (key w)).any p) = gained p t u := rfl
  have hfresh : t.find (key r') = none := by
    rw [find_eq_none]
    intro w hw
    exact find_eq_none.mp (insert_fresh h') w (by rw [insert_rows h]; simp [hw])
  rw [gained_insert h', gained, insert_rows h', List.filter_append, hold, List.filter_singleton,
    hfresh]
  simp

theorem gained_modify {k : Key} {f : Row → Row} {hf : ∀ r, key (f r) = key r}
    (h : t.find k = some r) (hp : p r = false) (hpf : p (f r) = true) :
    gained p t (t.modify k f hf) = [f r] := by
  obtain ⟨before, after, hrows⟩ := List.append_of_mem (mem_of_find h)
  have hkr : key r = k := find_key h
  -- the other rows were there before
  have hother : ∀ us : List Row, (∀ v ∈ us, v ∈ t.rows ∧ key v ≠ k) →
      (us.map fun v => if key v = k then f v else v).filter
        (fun v => p v && !(t.find (key v)).any p) = [] := by
    intro us hus
    rw [List.filter_eq_nil_iff]
    intro w hw
    obtain ⟨v, hv, rfl⟩ := List.mem_map.mp hw
    obtain ⟨hvt, hvk⟩ := hus v hv
    simp [hvk, find_of_mem hvt]
  have hnodup := t.nodup
  rw [hrows, List.map_append, List.map_cons, List.nodup_append'] at hnodup
  obtain ⟨-, hafter, hdisjoint⟩ := hnodup
  rw [List.nodup_cons] at hafter
  rw [gained, modify_rows, hrows, List.map_append, List.map_cons, List.filter_append,
    List.filter_cons, hother before ?_, hother after ?_, if_pos hkr, hf, hkr, h]
  · simp [hp, hpf]
  · intro v hv
    refine ⟨by simp [hrows, hv], fun hvk => hafter.1 ?_⟩
    rw [hkr, ← hvk]
    exact List.mem_map_of_mem hv
  · intro v hv
    refine ⟨by simp [hrows, hv], fun hvk => ?_⟩
    exact hdisjoint (List.mem_map_of_mem hv) (by simp [hkr, hvk])

end Gained

end Table

/-! ## A second unique index -/

/-- A table in which a second column, or a pair of columns, is unique too. -/
structure IndexedTable (Row : Type*) {Key Ix : Type*} (key : Row → Key) (index : Row → Ix) where
  table : Table Row key
  unique : ∀ r ∈ table.rows, ∀ u ∈ table.rows, index r = index u → r = u

namespace IndexedTable

variable {Ix : Type*} {index : Row → Ix}

def empty : IndexedTable Row key index := ⟨.empty, by simp⟩

variable [DecidableEq Ix]

def lookup (t : IndexedTable Row key index) (i : Ix) : Option Row :=
  t.table.rows.find? fun r => index r = i

theorem lookup_eq_some {t : IndexedTable Row key index} {i : Ix} {r : Row} :
    t.lookup i = some r ↔ r ∈ t.table.rows ∧ index r = i := by
  constructor
  · intro h
    exact ⟨List.mem_of_find?_eq_some h, by simpa using List.find?_some h⟩
  · rintro ⟨hr, rfl⟩
    have hs : (t.lookup (index r)).isSome := by
      rw [lookup, List.find?_isSome]
      exact ⟨r, hr, by simp⟩
    obtain ⟨u, hu⟩ := Option.isSome_iff_exists.mp hs
    have huix : index u = index r := by simpa using List.find?_some hu
    rw [hu, t.unique u (List.mem_of_find?_eq_some hu) r hr huix]

theorem lookup_eq_none {t : IndexedTable Row key index} {i : Ix} :
    t.lookup i = none ↔ ∀ r ∈ t.table.rows, index r ≠ i := by
  simp [lookup, List.find?_eq_none]

variable [DecidableEq Key]

def find (t : IndexedTable Row key index) (k : Key) : Option Row := t.table.find k

/-- `none`: the key or the index is taken. -/
def insert (t : IndexedTable Row key index) (r : Row) : Option (IndexedTable Row key index) :=
  if hi : t.lookup (index r) = none then
    match h : t.table.insert r with
    | none => none
    | some table => some ⟨table, by
        rw [lookup_eq_none] at hi
        intro a ha b hb hab
        rcases (Table.mem_insert h).mp ha with ha' | rfl
        · rcases (Table.mem_insert h).mp hb with hb' | rfl
          · exact t.unique a ha' b hb' hab
          · exact absurd hab (hi a ha')
        · rcases (Table.mem_insert h).mp hb with hb' | rfl
          · exact absurd hab.symm (hi b hb')
          · rfl⟩
  else none

/-- Rewrite the row of one key; its unique columns stay. -/
def modify (t : IndexedTable Row key index) (k : Key) (f : Row → Row)
    (hf : ∀ r, key (f r) = key r) (hi : ∀ r, index (f r) = index r) :
    IndexedTable Row key index :=
  ⟨t.table.modify k f hf, by
    have horigin : ∀ a ∈ (t.table.modify k f hf).rows, ∃ r ∈ t.table.rows,
        index r = index a ∧ key r = key a := by
      intro a ha
      rcases Table.mem_modify.mp ha with ⟨hold, -⟩ | ⟨r, hr, rfl⟩
      · exact ⟨a, hold, rfl, rfl⟩
      · exact ⟨r, Table.mem_of_find hr, (hi r).symm, (hf r).symm⟩
    intro a ha b hb hab
    obtain ⟨r, hr, hra, hka⟩ := horigin a ha
    obtain ⟨u, hu, hub, hkb⟩ := horigin b hb
    have hru : r = u := t.unique r hr u hu (by rw [hra, hub, hab])
    exact Table.eq_of_key ha hb (by rw [← hka, ← hkb, hru])⟩

omit [DecidableEq Ix] [DecidableEq Key] in
theorem deleteWhere_unique (t : IndexedTable Row key index) (p : Row → Bool) :
    ∀ r ∈ (t.table.deleteWhere p).rows, ∀ u ∈ (t.table.deleteWhere p).rows,
      index r = index u → r = u :=
  fun r hr u hu h => t.unique r (Table.mem_deleteWhere.mp hr).1 u (Table.mem_deleteWhere.mp hu).1 h

def deleteWhere (t : IndexedTable Row key index) (p : Row → Bool) : IndexedTable Row key index :=
  ⟨t.table.deleteWhere p, t.deleteWhere_unique p⟩

section Insert
variable {t u : IndexedTable Row key index} {r : Row}

theorem insert_table (h : t.insert r = some u) : t.table.insert r = some u.table := by
  unfold insert at h
  split_ifs at h
  split at h
  · cases h
  · next table ht =>
      rw [Option.some.injEq] at h
      rw [ht, ← h]

theorem mem_insert (h : t.insert r = some u) {v : Row} :
    v ∈ u.table.rows ↔ v ∈ t.table.rows ∨ v = r :=
  Table.mem_insert (insert_table h)

theorem insert_fresh (h : t.insert r = some u) : t.lookup (index r) = none := by
  unfold insert at h
  split_ifs at h with hi
  exact hi

/-- A refused row meets a row of its key or of its index. -/
theorem insert_refused (h : t.insert r = none) :
    t.find (key r) ≠ none ∨ t.lookup (index r) ≠ none := by
  unfold insert at h
  split_ifs at h with hi
  · refine .inl fun hfree => ?_
    split at h
    · next ht => exact Table.insert_refused ht hfree
    · cases h
  · exact .inr hi

theorem find_insert (h : t.insert r = some u) (k : Key) :
    u.find k = if k = key r then some r else t.find k :=
  Table.find_insert (insert_table h) k

theorem find_insert_of_some (h : t.insert r = some u) {k : Key} {v : Row}
    (hv : t.find k = some v) : u.find k = some v :=
  Table.find_insert_of_some (insert_table h) hv

end Insert

omit [DecidableEq Ix] in
theorem mem_modify {t : IndexedTable Row key index} {k : Key} {f : Row → Row}
    {hf : ∀ r, key (f r) = key r} {hi : ∀ r, index (f r) = index r} {u : Row} :
    u ∈ (t.modify k f hf hi).table.rows ↔
      (u ∈ t.table.rows ∧ key u ≠ k) ∨ ∃ r, t.find k = some r ∧ u = f r := by
  change u ∈ (t.table.modify k f hf).rows ↔ _
  exact Table.mem_modify

omit [DecidableEq Ix] in
theorem find_modify {t : IndexedTable Row key index} {k : Key} {f : Row → Row}
    {hf : ∀ r, key (f r) = key r} {hi : ∀ r, index (f r) = index r} (k' : Key) :
    (t.modify k f hf hi).find k' = if k' = k then (t.find k).map f else t.find k' := by
  change (t.table.modify k f hf).find k' = _
  exact Table.find_modify k'

omit [DecidableEq Ix] [DecidableEq Key] in
@[simp] theorem mem_deleteWhere {t : IndexedTable Row key index} {p : Row → Bool} {r : Row} :
    r ∈ (t.deleteWhere p).table.rows ↔ r ∈ t.table.rows ∧ p r = false :=
  Table.mem_deleteWhere

omit [DecidableEq Ix] in
theorem find_deleteWhere {t : IndexedTable Row key index} {p : Row → Bool} (k : Key) :
    (t.deleteWhere p).find k = (t.find k).filter fun r => !p r :=
  Table.find_deleteWhere k

end IndexedTable

end Library
