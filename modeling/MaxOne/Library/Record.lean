import MaxOne.Library.Table

/-!
# Records

Named values in the order they were first set, a name at most once: the objects and
parameter lists of a scripting language. `get` sees the last value set.
-/
namespace Library

abbrev Record (Name Value : Type*) := Table (Name × Value) Prod.fst

namespace Record
variable {Name Value : Type*} [DecidableEq Name] {r : Record Name Value} {k k' : Name} {v : Value}

def get (r : Record Name Value) (k : Name) : Option Value := (r.find k).map Prod.snd

/-- In its old place if the name is there, at the end if not. -/
def set (r : Record Name Value) (k : Name) (v : Value) : Record Name Value :=
  match r.insert (k, v) with
  | some u => u
  | none => r.modify k (fun e => (e.1, v)) fun _ => rfl

def delete (r : Record Name Value) (k : Name) : Record Name Value := r.deleteWhere fun e => e.1 = k

@[simp] theorem get_empty (k : Name) : get (Table.empty : Record Name Value) k = none := rfl

theorem get_set (r : Record Name Value) (k : Name) (v : Value) (k' : Name) :
    (r.set k v).get k' = if k' = k then some v else r.get k' := by
  unfold set
  cases hinsert : r.insert (k, v) with
  | some u =>
      dsimp only
      rw [get, Table.find_insert hinsert]
      split_ifs
      · rfl
      · rfl
  | none =>
      dsimp only
      rw [get, Table.find_modify]
      split_ifs with hk
      · have hthere : r.find k ≠ none := Table.insert_refused hinsert
        obtain ⟨e, he⟩ := Option.ne_none_iff_exists'.mp hthere
        rw [he]
        rfl
      · rfl

theorem get_delete (r : Record Name Value) (k k' : Name) :
    (r.delete k).get k' = if k' = k then none else r.get k' := by
  rw [get, delete, Table.find_deleteWhere]
  cases hfind : r.find k' with
  | none => simp [get, hfind]
  | some e =>
      have hkey : e.1 = k' := Table.find_key hfind
      rw [Option.filter_some, hkey]
      by_cases hk : k' = k
      · simp [hk]
      · simp [get, hfind, hk]

theorem get_mem (h : r.get k = some v) : (k, v) ∈ r.rows := by
  obtain ⟨e, he, rfl⟩ := Option.map_eq_some_iff.mp h
  have hkey : e.1 = k := Table.find_key he
  rw [← hkey]
  exact Table.mem_of_find he

end Record

end Library
