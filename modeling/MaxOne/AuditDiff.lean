import MaxOne.Library.JsonText

/-!
# Changes of an audit row

An audit row keeps two JSON snapshots, and the staff reads one line for each field
that differs. Fields are compared by their texts; since no two values share a text,
the lines say exactly what changed: applied to the old snapshot they give the new one.
The exception are fields named like a property that every object inherits: to
`key in fields` both snapshots have them.
-/
namespace MaxOne.AuditDiff
open Library.ScriptValue Library.JsonText

inductive Kind where
  | changed
  | added
  | removed
  deriving DecidableEq, Repr

/-- What reading a property gives: a value, a function that every object inherits, the
prototype itself, or undefined. -/
inductive Read where
  | value (v : Value)
  | inherited
  | prototype
  | undefined

structure DiffRow where
  key : String
  before : Read
  after : Read
  kind : Kind

/-- The functions of `Object.prototype`. -/
def inheritedNames : List String :=
  ["constructor", "toString", "toLocaleString", "valueOf", "hasOwnProperty", "isPrototypeOf",
    "propertyIsEnumerable", "__defineGetter__", "__defineSetter__", "__lookupGetter__",
    "__lookupSetter__"]

/-- The names that are `in` every object. -/
def objectNames : List String := "__proto__" :: inheritedNames

/-- A snapshot that is no object counts as one without fields. -/
def fieldsOf : Value → List (String × Value)
  | .object fields => fields
  | _ => []

def read (fields : List (String × Value)) (key : String) : Read :=
  match (Value.object fields).get key with
  | some v => .value v
  | none =>
      if key = "__proto__" then .prototype
      else if key ∈ inheritedNames then .inherited
      else .undefined

/-- `key in fields` -/
def has (fields : List (String × Value)) (key : String) : Bool :=
  match read fields key with
  | .undefined => false
  | _ => true

/-- `JSON.stringify` of what was read: the prototype has no fields of its own, a function
and undefined have no text. -/
def textOf (f : NumberFormat) : Read → Option String
  | .value v => some (stringify f v)
  | .prototype => some (stringify f (.object []))
  | .inherited | .undefined => none

/-- The keys of both snapshots, each once, in the order of their first appearance. -/
def keysOf (a b : List (String × Value)) : List String :=
  (a.map Prod.fst ++ b.map Prod.fst).foldl (fun keys key =>
    if key ∈ keys then keys else keys ++ [key]) []

def rowOf (f : NumberFormat) (a b : List (String × Value)) (key : String) : Option DiffRow :=
  if has a key && has b key then
    if textOf f (read a key) ≠ textOf f (read b key) then
      some ⟨key, read a key, read b key, .changed⟩
    else none
  else if has b key then some ⟨key, .undefined, read b key, .added⟩
  else some ⟨key, read a key, .undefined, .removed⟩

/-- Of two JSON values; their objects list their fields as objects do. -/
def diffSnapshots (f : NumberFormat) (oldValue newValue : Value) : List DiffRow :=
  let a := fieldsOf (ordered oldValue)
  let b := fieldsOf (ordered newValue)
  (keysOf a b).filterMap (rowOf f a b)

/-! ## The keys -/

section Keys
variable {ks : List String} {a b fields : List (String × Value)} {key : String}

theorem mem_collect (keys : List String) :
    key ∈ ks.foldl (fun keys key => if key ∈ keys then keys else keys ++ [key]) keys ↔
      key ∈ keys ∨ key ∈ ks := by
  induction ks generalizing keys with
  | nil => simp
  | cons k ks ih =>
      rw [List.foldl_cons, ih]
      split_ifs with hk
      · constructor
        · rintro (h | h)
          · exact .inl h
          · exact .inr (List.mem_cons_of_mem _ h)
        · rintro (h | h)
          · exact .inl h
          · rcases List.mem_cons.mp h with rfl | h
            · exact .inl hk
            · exact .inr h
      · simp only [List.mem_append, List.mem_cons, List.not_mem_nil, or_false, or_assoc]

theorem nodup_collect {keys : List String} (h : keys.Nodup) :
    (ks.foldl (fun keys key => if key ∈ keys then keys else keys ++ [key]) keys).Nodup := by
  induction ks generalizing keys with
  | nil => exact h
  | cons k ks ih =>
      rw [List.foldl_cons]
      split_ifs with hk
      · exact ih h
      · refine ih (List.nodup_append.mpr ⟨h, List.nodup_singleton k, ?_⟩)
        intro x hx y hy
        rw [List.mem_singleton.mp hy]
        exact ne_of_mem_of_not_mem hx hk

theorem mem_keysOf : key ∈ keysOf a b ↔ key ∈ a.map Prod.fst ∨ key ∈ b.map Prod.fst := by
  rw [keysOf, mem_collect, List.mem_append]
  simp

theorem get_isSome : ((Value.object fields).get key).isSome ↔ key ∈ fields.map Prod.fst := by
  rw [Value.get, List.lookup_isSome_iff]
  simp

theorem get_mem {v : Value} (h : (Value.object fields).get key = some v) : (key, v) ∈ fields := by
  rw [Value.get, List.lookup_eq_some_iff] at h
  obtain ⟨l₁, l₂, heq, -⟩ := h
  exact List.mem_reverse.mp (heq ▸ List.mem_append_right _ List.mem_cons_self)

end Keys

/-! ## The lines -/

/-- The field of a snapshot. -/
def field (snapshot : Value) (key : String) : Option Value :=
  (Value.object (fieldsOf (ordered snapshot))).get key

def ofField : Option Value → Read
  | some v => .value v
  | none => .undefined

def kindOf : Option Value → Option Value → Kind
  | none, _ => .added
  | some _, none => .removed
  | some _, some _ => .changed

/-- The line of a field. -/
def line (oldValue newValue : Value) (key : String) : DiffRow :=
  ⟨key, ofField (field oldValue key), ofField (field newValue key),
    kindOf (field oldValue key) (field newValue key)⟩

/-- The change a list of lines makes to a field. -/
def applied (rows : List DiffRow) (key : String) (before : Read) : Read :=
  ((rows.find? fun row => row.key = key).map DiffRow.after).getD before

/-- The lines say of this field what is true: it has one if and only if it differs, which
says what it was, what it is and whether it is new, gone or changed, and which turns the
old field into the new one. -/
structure ExactAt (oldValue newValue : Value) (rows : List DiffRow) (key : String) : Prop where
  differs : key ∈ rows.map DiffRow.key ↔ field oldValue key ≠ field newValue key
  lines : ∀ row ∈ rows, row.key = key → row = line oldValue newValue key
  applied : applied rows key (ofField (field oldValue key)) = ofField (field newValue key)

/-- If every object inherits the name, the snapshots both have a field of it or neither. -/
def Shared (oldValue newValue : Value) (key : String) : Prop :=
  key ∈ objectNames → (field oldValue key).isSome = (field newValue key).isSome

section Lines
variable {f : NumberFormat} {oldValue newValue snapshot : Value} {rows : List DiffRow}
  {row : DiffRow} {key : String} {v : Value}

theorem field_exact (h : Exact f snapshot) (hfield : field snapshot key = some v) : Exact f v := by
  have hmem := get_mem hfield
  have hordered := ordered_exact h
  cases hsnapshot : ordered snapshot with
  | object fields =>
      rw [hsnapshot] at hmem hordered
      exact fieldsExact_iff.mp hordered.2 _ hmem
  | _ =>
      rw [hsnapshot] at hmem
      cases hmem

theorem read_of_some (h : field snapshot key = some v) :
    read (fieldsOf (ordered snapshot)) key = .value v := by
  rw [field] at h
  rw [read, h]

theorem read_of_none (h : field snapshot key = none) (hplain : key ∉ objectNames) :
    read (fieldsOf (ordered snapshot)) key = .undefined := by
  rw [objectNames, List.mem_cons, not_or] at hplain
  rw [field] at h
  rw [read, h]
  simp only [if_neg hplain.1, if_neg hplain.2]

theorem has_of_some (h : field snapshot key = some v) :
    has (fieldsOf (ordered snapshot)) key = true := by
  rw [has, read_of_some h]

theorem has_of_none (h : field snapshot key = none) (hplain : key ∉ objectNames) :
    has (fieldsOf (ordered snapshot)) key = false := by
  rw [has, read_of_none h hplain]

/-- Every object has an inherited name. -/
theorem has_of_mem (h : key ∈ objectNames) : has (fieldsOf (ordered snapshot)) key = true := by
  rw [has, read]
  cases (Value.object (fieldsOf (ordered snapshot))).get key with
  | some v => rfl
  | none =>
      by_cases hproto : key = "__proto__"
      · simp only [if_pos hproto]
      · have hname := (List.mem_cons.mp h).resolve_left hproto
        simp only [if_neg hproto, if_pos hname]

/-- A line stands for a field that differs, with what it was and what it is. -/
theorem rowOf_eq (hold : Exact f oldValue) (hnew : Exact f newValue)
    (hshared : Shared oldValue newValue key)
    (hkey : field oldValue key ≠ none ∨ field newValue key ≠ none) (row : DiffRow) :
    rowOf f (fieldsOf (ordered oldValue)) (fieldsOf (ordered newValue)) key = some row ↔
      field oldValue key ≠ field newValue key ∧ row = line oldValue newValue key := by
  rw [rowOf, line, eq_comm]
  cases hv : field oldValue key with
  | none =>
      cases hu : field newValue key with
      | none => exact absurd hkey (by simp [hv, hu])
      | some u =>
          have hplain : key ∉ objectNames := fun hmem => by simpa [hv, hu] using hshared hmem
          simp [has_of_none hv hplain, has_of_some hu, read_of_some hu, ofField, kindOf]
  | some v =>
      cases hu : field newValue key with
      | none =>
          have hplain : key ∉ objectNames := fun hmem => by simpa [hv, hu] using hshared hmem
          simp [has_of_some hv, has_of_none hu hplain, read_of_some hv, ofField, kindOf]
      | some u =>
          have hsame : stringify f v = stringify f u ↔ v = u := by
            refine ⟨fun h => ?_, fun h => congrArg (stringify f) h⟩
            exact stringify_injective f (field_exact hold hv) (field_exact hnew hu) h
          by_cases heq : v = u <;>
            simp [has_of_some hv, has_of_some hu, read_of_some hv, read_of_some hu, ofField, kindOf,
              textOf, hsame, heq]

theorem rowOf_key {a b : List (String × Value)} (h : rowOf f a b key = some row) :
    row.key = key := by
  unfold rowOf at h
  split_ifs at h <;> cases h <;> rfl

theorem keys_sublist {a b : List (String × Value)} (ks : List String) :
    ((ks.filterMap (rowOf f a b)).map DiffRow.key).Sublist ks := by
  induction ks with
  | nil => exact List.Sublist.slnil
  | cons k ks ih =>
      cases hrow : rowOf f a b k with
      | none =>
          rw [List.filterMap_cons_none hrow]
          exact ih.cons k
      | some row =>
          rw [List.filterMap_cons_some hrow, List.map_cons, rowOf_key hrow]
          exact ih.cons_cons k

theorem diffSnapshots_nodup : ((diffSnapshots f oldValue newValue).map DiffRow.key).Nodup :=
  (keys_sublist _).nodup (nodup_collect List.nodup_nil)

/-- The lines of a field. -/
theorem mem_diffSnapshots : row ∈ diffSnapshots f oldValue newValue ∧ row.key = key ↔
    (field oldValue key ≠ none ∨ field newValue key ≠ none) ∧
      rowOf f (fieldsOf (ordered oldValue)) (fieldsOf (ordered newValue)) key = some row := by
  have hkeys : ∀ k, k ∈ keysOf (fieldsOf (ordered oldValue)) (fieldsOf (ordered newValue)) ↔
      field oldValue k ≠ none ∨ field newValue k ≠ none := by
    intro k
    rw [mem_keysOf, ← get_isSome, ← get_isSome, Option.isSome_iff_ne_none,
      Option.isSome_iff_ne_none]
    rfl
  rw [diffSnapshots, List.mem_filterMap]
  constructor
  · rintro ⟨⟨k, hk, hrow⟩, rfl⟩
    obtain rfl := rowOf_key hrow
    exact ⟨(hkeys _).mp hk, hrow⟩
  · rintro ⟨hsome, hrow⟩
    exact ⟨⟨key, (hkeys _).mpr hsome, hrow⟩, rowOf_key hrow⟩

/-- A field that both have or that is not inherited. -/
theorem exactAt_of_shared (hold : Exact f oldValue) (hnew : Exact f newValue)
    (hshared : Shared oldValue newValue key) :
    ExactAt oldValue newValue (diffSnapshots f oldValue newValue) key := by
  have hmem : ∀ row, row ∈ diffSnapshots f oldValue newValue ∧ row.key = key ↔
      field oldValue key ≠ field newValue key ∧ row = line oldValue newValue key := by
    intro row
    rw [mem_diffSnapshots]
    constructor
    · rintro ⟨hsome, hrow⟩
      exact (rowOf_eq hold hnew hshared hsome row).mp hrow
    · rintro ⟨hdiffers, heq⟩
      have hsome : field oldValue key ≠ none ∨ field newValue key ≠ none := by
        by_contra hnone
        rw [not_or, not_not, not_not] at hnone
        exact hdiffers (hnone.1.trans hnone.2.symm)
      exact ⟨hsome, (rowOf_eq hold hnew hshared hsome row).mpr ⟨hdiffers, heq⟩⟩
  have hdiffers : key ∈ (diffSnapshots f oldValue newValue).map DiffRow.key ↔
      field oldValue key ≠ field newValue key := by
    rw [List.mem_map]
    constructor
    · rintro ⟨row, hat⟩
      exact ((hmem row).mp hat).1
    · exact fun hne => ⟨_, (hmem _).mpr ⟨hne, rfl⟩⟩
  refine ⟨hdiffers, fun row hrow hkey => ((hmem row).mp ⟨hrow, hkey⟩).2, ?_⟩
  rw [applied]
  cases hfind : (diffSnapshots f oldValue newValue).find? fun row => row.key = key with
  | some row =>
      have hkey : row.key = key := by simpa using List.find?_some hfind
      rw [Option.map_some, Option.getD_some,
        ((hmem row).mp ⟨List.mem_of_find?_eq_some hfind, hkey⟩).2]
      rfl
  | none =>
      have hnot : key ∉ (diffSnapshots f oldValue newValue).map DiffRow.key := by
        rintro hat
        obtain ⟨row, hrow, rfl⟩ := List.mem_map.mp hat
        simpa using List.find?_eq_none.mp hfind row hrow
      rw [hdiffers, not_not] at hnot
      rw [Option.map_none, Option.getD_none, hnot]

/-- To `key in fields` both snapshots have an inherited name, so the line of one that is
new or gone calls it changed. -/
theorem not_exactAt (hmem : key ∈ objectNames)
    (hone : (field oldValue key).isSome ≠ (field newValue key).isSome) :
    ¬ ExactAt oldValue newValue (diffSnapshots f oldValue newValue) key := by
  intro hexact
  have hne : field oldValue key ≠ field newValue key := fun heq => hone (congrArg _ heq)
  obtain ⟨row, hrow, hkey⟩ := List.mem_map.mp (hexact.differs.mpr hne)
  have hline := hexact.lines row hrow hkey
  have hat := (mem_diffSnapshots.mp ⟨hrow, hkey⟩).2
  rw [rowOf, has_of_mem hmem, has_of_mem hmem] at hat
  have hkind : row.kind = .changed := by
    simp only [Bool.and_self, if_true] at hat
    split_ifs at hat
    rw [← Option.some.inj hat]
  rw [hline, line] at hkind
  cases hv : field oldValue key with
  | none => simp [hv, kindOf] at hkind
  | some v =>
      cases hu : field newValue key with
      | none => simp [hv, hu, kindOf] at hkind
      | some u => simp [hv, hu] at hone

end Lines

/-- Each field of two snapshots has one line at most, and the lines are exact at a field
unless every object inherits its name and one snapshot alone has it: it has a line if and
only if it differs, which says what it was, what it is and whether it is new, gone or
changed, and which turns the old field into the new one. -/
theorem diff_exact (f : NumberFormat) {oldValue newValue : Value} {rows : List DiffRow}
    (hrows : diffSnapshots f oldValue newValue = rows)
    (hold : Exact f oldValue) (hnew : Exact f newValue) :
    (rows.map DiffRow.key).Nodup ∧
      ∀ key, ExactAt oldValue newValue rows key ↔ Shared oldValue newValue key := by
  subst hrows
  refine ⟨diffSnapshots_nodup, fun key => ⟨fun hexact hmem => ?_, exactAt_of_shared hold hnew⟩⟩
  by_contra hone
  exact not_exactAt hmem hone hexact

/-- An approval: the status changes, the balance is new, and the field of the numbered
keys is the same in another order. -/
theorem diff_exact_approval :
    let oldValue : Value := .object [("status", .text "pending"),
      ("steps", .object [("note", .null), ("10", .null), ("2", .null)])]
    let newValue : Value := .object [("steps", .object [("2", .null), ("note", .null), ("10", .null)]),
      ("status", .text "approved"), ("balanceAfter", .number (.finite 4000))]
    ∀ rows, diffSnapshots wholeNumbers oldValue newValue = rows →
      rows.map (fun row => (row.key, row.kind)) =
        [("status", .changed), ("balanceAfter", .added)] ∧
      applied rows "status" (ofField (field oldValue "status")) =
        ofField (field newValue "status") := by
  intro oldValue newValue rows hrows
  have hold : Exact wholeNumbers oldValue :=
    ⟨by simp, trivial, ⟨by simp, trivial, trivial, trivial, trivial⟩, trivial⟩
  have hnew : Exact wholeNumbers newValue :=
    ⟨by simp, ⟨by simp, trivial, trivial, trivial, trivial⟩, trivial,
      ⟨4000, Library.Binary64.ofNat_eq_finite (by norm_num), rfl⟩, trivial⟩
  have hshared : Shared oldValue newValue "status" := fun hmem => absurd hmem (by decide)
  refine ⟨?_, (((diff_exact wholeNumbers hrows hold hnew).2 "status").mpr hshared).applied⟩
  rw [← hrows]
  decide

end MaxOne.AuditDiff
