import Mathlib.Algebra.BigOperators.Group.List.Basic
import Mathlib.Data.List.Nodup
import Mathlib.Data.List.Sort
import Mathlib.Tactic.Abel

/-! Finite maps that remember insertion order, as the dictionaries of scripting
languages do. Keys are distinct by construction; assigning to a present key keeps
its place, assigning to a new one appends. -/
structure Dict (κ : Type u) (α : Type v) where
  entries : List (κ × α)
  distinct : (entries.map Prod.fst).Nodup

namespace Dict

variable {κ : Type u} {α : Type v} [DecidableEq κ]

def find : List (κ × α) → κ → Option α
  | [], _ => none
  | (k, a) :: rest, key => if k = key then some a else find rest key

def put : List (κ × α) → κ → α → List (κ × α)
  | [], key, value => [(key, value)]
  | (k, a) :: rest, key, value =>
    if k = key then (k, value) :: rest else (k, a) :: put rest key value

theorem find_put (l : List (κ × α)) (key other : κ) (value : α) :
    find (put l key value) other = if key = other then some value else find l other := by
  induction l with
  | nil => rfl
  | cons e rest ih =>
    obtain ⟨k, a⟩ := e
    by_cases here : k = key
    · subst here
      by_cases same : k = other <;> simp [put, find, same]
    · simp only [put, if_neg here, find, ih]
      by_cases same : k = other
      · subst same; simp [Ne.symm here]
      · simp [same]

theorem find_mem {l : List (κ × α)} {key : κ} {value : α} (found : find l key = some value) :
    (key, value) ∈ l := by
  induction l with
  | nil => simp [find] at found
  | cons e rest ih =>
    obtain ⟨k, a⟩ := e
    simp only [find] at found
    split at found
    next same => subst same; simp_all
    next => exact List.mem_cons_of_mem _ (ih found)

theorem find_of_mem {l : List (κ × α)} {key : κ} {value : α} (distinct : (l.map Prod.fst).Nodup)
    (member : (key, value) ∈ l) : find l key = some value := by
  induction l with
  | nil => simp at member
  | cons e rest ih =>
    obtain ⟨k, a⟩ := e
    simp only [List.map_cons, List.nodup_cons] at distinct
    rcases List.mem_cons.mp member with here | later
    · cases here; simp [find]
    · have apart : k ≠ key := by
        rintro rfl
        exact distinct.1 (List.mem_map_of_mem later)
      simp [find, apart, ih distinct.2 later]

theorem find_none_iff {l : List (κ × α)} {key : κ} :
    find l key = none ↔ key ∉ l.map Prod.fst := by
  induction l with
  | nil => simp [find]
  | cons e rest ih =>
    obtain ⟨k, a⟩ := e
    by_cases here : k = key
    · simp [find, here]
    · simp [find, here, ih, Ne.symm here]

theorem put_keys (l : List (κ × α)) (key : κ) (value : α) :
    (put l key value).map Prod.fst =
      if key ∈ l.map Prod.fst then l.map Prod.fst else l.map Prod.fst ++ [key] := by
  induction l with
  | nil => simp [put]
  | cons e rest ih =>
    obtain ⟨k, a⟩ := e
    by_cases here : k = key
    · simp [put, here]
    · simp only [put, if_neg here, List.map_cons, ih, List.mem_cons, Ne.symm here, false_or]
      split <;> simp

theorem put_distinct {l : List (κ × α)} (key : κ) (value : α)
    (distinct : (l.map Prod.fst).Nodup) : ((put l key value).map Prod.fst).Nodup := by
  rw [put_keys]
  split
  next => exact distinct
  next fresh => exact List.nodup_append.mpr ⟨distinct, by simp, by
    intro a ha b hb; simp only [List.mem_singleton] at hb; rintro rfl; exact fresh (hb ▸ ha)⟩

/-- A fresh key is appended at the end. -/
theorem put_mem {l : List (κ × α)} {key : κ} {value : α} {e : κ × α} (member : e ∈ put l key value) :
    e = (key, value) ∨ e ∈ l := by
  induction l with
  | nil => exact .inl (List.mem_singleton.mp member)
  | cons first rest ih =>
    obtain ⟨k, a⟩ := first
    simp only [put] at member
    split at member
    next same =>
      rcases List.mem_cons.mp member with here | later
      · exact .inl (same ▸ here)
      · exact .inr (List.mem_cons_of_mem _ later)
    next =>
      rcases List.mem_cons.mp member with here | later
      · exact .inr (here ▸ List.mem_cons_self)
      · exact (ih later).imp_right (List.mem_cons_of_mem _)

theorem put_fresh {l : List (κ × α)} {key : κ} (fresh : key ∉ l.map Prod.fst) (value : α) :
    put l key value = l ++ [(key, value)] := by
  induction l with
  | nil => rfl
  | cons e rest ih =>
    obtain ⟨k, a⟩ := e
    simp only [List.map_cons, List.mem_cons, not_or] at fresh
    simp [put, Ne.symm fresh.1, ih fresh.2]

theorem put_last {l : List (κ × α)} {key : κ} (fresh : key ∉ l.map Prod.fst) (old value : α) :
    put (l ++ [(key, old)]) key value = l ++ [(key, value)] := by
  induction l with
  | nil => simp [put]
  | cons e rest ih =>
    obtain ⟨k, a⟩ := e
    simp only [List.map_cons, List.mem_cons, not_or] at fresh
    simp [put, Ne.symm fresh.1, ih fresh.2]

def empty : Dict κ α := ⟨[], List.nodup_nil⟩

def get? (d : Dict κ α) (key : κ) : Option α := find d.entries key

def getD (d : Dict κ α) (key : κ) (fallback : α) : α := (d.get? key).getD fallback

def set (d : Dict κ α) (key : κ) (value : α) : Dict κ α :=
  ⟨put d.entries key value, put_distinct key value d.distinct⟩

/-- Insert the default only where the key is absent. -/
def setDefault (d : Dict κ α) (key : κ) (value : α) : Dict κ α :=
  match d.get? key with
  | some _ => d
  | none => d.set key value

/-- Change the value of a present key; an absent one stays absent. -/
def modify (d : Dict κ α) (key : κ) (change : α → α) : Dict κ α :=
  match d.get? key with
  | some value => d.set key (change value)
  | none => d

/-- Joins a value to what its key has. -/
def gather (join : α → α → α) (d : Dict κ α) (key : κ) (value : α) : Dict κ α :=
  d.set key ((d.get? key).elim value fun old => join old value)

/-- Remove a binding, if there is one. -/
def erase (d : Dict κ α) (key : κ) : Dict κ α where
  entries := d.entries.filter fun e => e.1 ≠ key
  distinct := d.distinct.sublist (List.filter_sublist.map _)

/-- Changes every value, in place. -/
def mapValues (d : Dict κ α) (change : α → α) : Dict κ α where
  entries := d.entries.map fun e => (e.1, change e.2)
  distinct := by rw [List.map_map]; exact d.distinct

def keys (d : Dict κ α) : List κ := d.entries.map Prod.fst

def values (d : Dict κ α) : List α := d.entries.map Prod.snd

/-- Assign every binding of a list in turn. -/
def update (d : Dict κ α) (l : List (κ × α)) : Dict κ α := l.foldl (fun d e => d.set e.1 e.2) d

/-- A dictionary display: later bindings of a key replace earlier ones. -/
def ofList (l : List (κ × α)) : Dict κ α := empty.update l

/-- Equality of dictionaries, whatever order their bindings were made in. -/
def Same (d e : Dict κ α) : Prop := d.entries.Perm e.entries

instance [DecidableEq α] (d e : Dict κ α) : Decidable (d.Same e) :=
  inferInstanceAs (Decidable (d.entries.Perm e.entries))

@[simp] theorem get?_empty (key : κ) : (empty : Dict κ α).get? key = none := rfl

@[simp] theorem get?_set (d : Dict κ α) (key other : κ) (value : α) :
    (d.set key value).get? other = if key = other then some value else d.get? other :=
  find_put d.entries key other value

theorem getD_set (d : Dict κ α) (key other : κ) (value fallback : α) :
    (d.set key value).getD other fallback = if key = other then value else d.getD other fallback := by
  unfold getD
  rw [get?_set]
  split <;> rfl

@[simp] theorem get?_gather (join : α → α → α) (d : Dict κ α) (key other : κ) (value : α) :
    (d.gather join key value).get? other =
      if key = other then some ((d.get? key).elim value fun old => join old value) else d.get? other :=
  get?_set d key other _

theorem keys_set (d : Dict κ α) (key : κ) (value : α) :
    (d.set key value).keys = if key ∈ d.keys then d.keys else d.keys ++ [key] :=
  put_keys d.entries key value

theorem get?_set_same (d : Dict κ α) (key : κ) (value : α) :
    (d.set key value).get? key = some value := by simp

theorem find_filter (l : List (κ × α)) (key other : κ) :
    find (l.filter fun e => e.1 ≠ key) other = if key = other then none else find l other := by
  induction l with
  | nil => simp [find]
  | cons e rest ih =>
    obtain ⟨k, a⟩ := e
    by_cases gone : k = key
    · subst gone
      rw [List.filter_cons_of_neg (by simp), ih]
      by_cases same : k = other <;> simp [find, same]
    · rw [List.filter_cons_of_pos (by simpa using gone)]
      simp only [find, ih]
      by_cases here : k = other
      · subst here; simp [Ne.symm gone]
      · simp [here]

@[simp] theorem get?_erase (d : Dict κ α) (key other : κ) :
    (d.erase key).get? other = if key = other then none else d.get? other :=
  find_filter d.entries key other

/-- A pass over distinct bindings whose steps each change their own key only. -/
theorem get?_foldl {step : Dict κ α → κ × α → Dict κ α}
    (own : ∀ (d : Dict κ α) e other, e.1 ≠ other → (step d e).get? other = d.get? other)
    {l : List (κ × α)} (distinct : (l.map Prod.fst).Nodup) (d : Dict κ α) (key : κ) :
    key ∉ l.map Prod.fst ∧ (l.foldl step d).get? key = d.get? key ∨
      ∃ value before, (key, value) ∈ l ∧ before.get? key = d.get? key ∧
        (l.foldl step d).get? key = (step before (key, value)).get? key := by
  induction l generalizing d with
  | nil => exact .inl ⟨by simp, rfl⟩
  | cons e rest ih =>
    obtain ⟨fresh, distinct⟩ := List.nodup_cons.mp distinct
    rw [List.foldl_cons]
    rcases ih distinct (step d e) with ⟨absent, same⟩ | ⟨value, before, member, earlier, last⟩
    · by_cases here : e.1 = key
      · subst here
        exact .inr ⟨e.2, d, List.mem_cons_self, rfl, same⟩
      · refine .inl ⟨?_, same.trans (own d e key here)⟩
        simpa [Ne.symm here] using absent
    · have apart : e.1 ≠ key := fun same => fresh (same ▸ List.mem_map_of_mem member)
      exact .inr ⟨value, before, List.mem_cons_of_mem _ member, earlier.trans (own d e key apart), last⟩

theorem get?_setDefault (d : Dict κ α) (key other : κ) (value : α) :
    (d.setDefault key value).get? other =
      if key = other then some ((d.get? key).getD value) else d.get? other := by
  unfold setDefault
  cases present : d.get? key with
  | some old =>
    by_cases same : key = other
    · subst same; simp [present]
    · simp [same]
  | none => simp

theorem get?_mapValues (d : Dict κ α) (key : κ) (change : α → α) :
    (d.mapValues change).get? key = (d.get? key).map change := by
  unfold mapValues get?
  dsimp only
  induction d.entries with
  | nil => rfl
  | cons e rest ih =>
    by_cases here : e.1 = key
    · simp [find, here]
    · simp [find, here, ih]

theorem setDefault_of_get {d : Dict κ α} {key : κ} {old : α} (present : d.get? key = some old)
    (value : α) : d.setDefault key value = d := by
  rw [setDefault, present]

theorem setDefault_of_absent {d : Dict κ α} {key : κ} (absent : d.get? key = none) (value : α) :
    d.setDefault key value = d.set key value := by
  rw [setDefault, absent]

theorem get?_modify (d : Dict κ α) (key other : κ) (change : α → α) :
    (d.modify key change).get? other =
      if key = other then (d.get? other).map change else d.get? other := by
  unfold modify
  cases present : d.get? key with
  | some old =>
    by_cases same : key = other
    · subst same; simp [present]
    · simp [same]
  | none =>
    by_cases same : key = other
    · subst same; simp [present]
    · simp [same]

theorem modify_of_get {d : Dict κ α} {key : κ} {value : α} (present : d.get? key = some value)
    (change : α → α) : d.modify key change = d.set key (change value) := by
  rw [modify, present]

theorem modify_of_absent {d : Dict κ α} {key : κ} (absent : d.get? key = none) (change : α → α) :
    d.modify key change = d := by
  rw [modify, absent]

theorem mem_entries {d : Dict κ α} {key : κ} {value : α} :
    (key, value) ∈ d.entries ↔ d.get? key = some value :=
  ⟨find_of_mem d.distinct, find_mem⟩

theorem get?_none_iff {d : Dict κ α} {key : κ} : d.get? key = none ↔ key ∉ d.keys := find_none_iff

omit [DecidableEq κ] in
theorem ext_entries {d e : Dict κ α} (same : d.entries = e.entries) : d = e := by
  cases d; cases e; simp_all

theorem put_present {l : List (κ × α)} {key : κ} {value : α} (found : find l key = some value) :
    put l key value = l := by
  induction l with
  | nil => cases found
  | cons e rest ih =>
    obtain ⟨k, a⟩ := e
    by_cases here : k = key
    · simp_all [find, put]
    · simp only [find, if_neg here] at found
      simp only [put, if_neg here, ih found]

theorem put_put (l : List (κ × α)) (key : κ) (first second : α) :
    put (put l key first) key second = put l key second := by
  induction l with
  | nil => simp [put]
  | cons e rest ih =>
    obtain ⟨k, a⟩ := e
    by_cases here : k = key
    · simp [put, here]
    · simp [put, here, ih]

/-- Assigning the value a key already has changes nothing. -/
theorem set_present {d : Dict κ α} {key : κ} {value : α} (present : d.get? key = some value) :
    d.set key value = d := ext_entries (put_present present)

theorem set_set (d : Dict κ α) (key : κ) (first second : α) :
    (d.set key first).set key second = d.set key second :=
  ext_entries (put_put d.entries key first second)

theorem setDefault_set (d : Dict κ α) (key : κ) (first second : α) :
    (d.setDefault key first).set key second = d.set key second := by
  cases present : d.get? key with
  | some old => rw [setDefault_of_get present]
  | none => rw [setDefault_of_absent present, set_set]

private theorem foldl_set_entries (d : Dict κ α) (l : List (κ × α))
    (distinct : ((d.entries ++ l).map Prod.fst).Nodup) :
    (l.foldl (fun d e => d.set e.1 e.2) d).entries = d.entries ++ l := by
  induction l generalizing d with
  | nil => simp
  | cons e rest ih =>
    have fresh : e.1 ∉ d.entries.map Prod.fst := by
      intro present
      rw [List.map_append, List.nodup_append] at distinct
      exact distinct.2.2 _ present _ (by simp) rfl
    have step : (d.set e.1 e.2).entries = d.entries ++ [e] := put_fresh fresh e.2
    rw [List.foldl_cons, ih _ (by rw [step]; simpa using distinct), step]
    simp

/-- Distinct bindings come back in the order given. -/
theorem ofList_entries {l : List (κ × α)} (distinct : (l.map Prod.fst).Nodup) :
    (ofList l).entries = l := by
  simpa [ofList, update, empty] using foldl_set_entries empty l (by simpa [empty] using distinct)

theorem get?_ofList {l : List (κ × α)} (distinct : (l.map Prod.fst).Nodup) (key : κ) :
    (ofList l).get? key = find l key := by
  rw [get?, ofList_entries distinct]

/-- A map built by a function of its keys. -/
theorem get?_ofKeys {keys : List κ} (distinct : keys.Nodup) (f : κ → α) (key : κ) :
    (ofList (keys.map fun key => (key, f key))).get? key = if key ∈ keys then some (f key) else none := by
  have keysOf : (keys.map fun key => (key, f key)).map Prod.fst = keys := by simp [Function.comp_def]
  rw [get?_ofList (by rw [keysOf]; exact distinct)]
  split
  next member => exact find_of_mem (by rw [keysOf]; exact distinct) (List.mem_map.mpr ⟨key, member, rfl⟩)
  next absent => rw [find_none_iff, keysOf]; exact absent

/-- A map built from the keys that have a value. -/
theorem get?_ofFilterMap {keys : List κ} (distinct : keys.Nodup) (f : κ → Option α) (key : κ) :
    (ofList (keys.filterMap fun k => (f k).map fun value => (k, value))).get? key =
      if key ∈ keys then f key else none := by
  have sublist : ((keys.filterMap fun k => (f k).map fun value => (k, value)).map Prod.fst).Sublist keys := by
    clear distinct
    induction keys with
    | nil => exact .slnil
    | cons k rest ih =>
      cases found : f k with
      | none => simpa [found] using ih.cons k
      | some value => simpa [found] using ih.cons_cons k
  have distinct' := sublist.nodup distinct
  rw [get?_ofList distinct']
  split
  next member =>
    cases found : f key with
    | none =>
      rw [find_none_iff]
      intro stored
      obtain ⟨entry, inside, rfl⟩ := List.mem_map.mp stored
      obtain ⟨k, -, made⟩ := List.mem_filterMap.mp inside
      obtain ⟨value, here, rfl⟩ := Option.map_eq_some_iff.mp made
      rw [here] at found
      cases found
    | some value =>
      exact find_of_mem distinct' (List.mem_filterMap.mpr ⟨key, member, by rw [found]; rfl⟩)
  next absent => exact find_none_iff.mpr fun stored => absent (sublist.subset stored)

/-- The values of a map transformed. -/
theorem get?_ofMap (d : Dict κ α) {β : Type*} (f : α → β) (key : κ) :
    (ofList (d.entries.map fun e => (e.1, f e.2))).get? key = (d.get? key).map f := by
  have keysOf : (d.entries.map fun e => (e.1, f e.2)).map Prod.fst = d.keys := by
    simp [keys, Function.comp_def]
  rw [get?_ofList (by rw [keysOf]; exact d.distinct)]
  cases found : d.get? key with
  | none =>
    rw [Option.map_none, find_none_iff, keysOf]
    exact get?_none_iff.mp found
  | some value =>
    exact find_of_mem (by rw [keysOf]; exact d.distinct)
      (List.mem_map.mpr ⟨(key, value), mem_entries.mpr found, rfl⟩)

theorem values_set_absent {d : Dict κ α} {key : κ} (absent : d.get? key = none) (value : α) :
    (d.set key value).values = d.values ++ [value] := by
  have entries : (d.set key value).entries = d.entries ++ [(key, value)] :=
    put_fresh (get?_none_iff.mp absent) value
  rw [values, entries, List.map_append]
  rfl

/-- After an update a key has one of its new values, or its old one if it got none. -/
theorem get?_update {d : Dict κ α} {l : List (κ × α)} {key : κ} {value : α}
    (found : (d.update l).get? key = some value) :
    (key, value) ∈ l ∨ d.get? key = some value ∧ key ∉ l.map Prod.fst := by
  induction l generalizing d with
  | nil => exact .inr ⟨found, by simp⟩
  | cons e rest ih =>
    rcases ih found with later | ⟨before, absent⟩
    · exact .inl (List.mem_cons_of_mem _ later)
    · rw [get?_set] at before
      split at before
      next same => cases before; exact .inl (by simp [← same])
      next other => exact .inr ⟨before, by simpa [Ne.symm other] using absent⟩

theorem isSome_update (d : Dict κ α) (l : List (κ × α)) (key : κ) :
    ((d.update l).get? key).isSome ↔ (d.get? key).isSome ∨ key ∈ l.map Prod.fst := by
  induction l generalizing d with
  | nil => simp [update]
  | cons e rest ih =>
    change (((d.set e.1 e.2).update rest).get? key).isSome ↔ _
    rw [ih, get?_set, List.map_cons, List.mem_cons]
    by_cases same : e.1 = key
    · simp [same]
    · simp [same, Ne.symm same]

theorem isSome_ofList (l : List (κ × α)) (key : κ) :
    ((ofList l).get? key).isSome ↔ key ∈ l.map Prod.fst := by
  simp [ofList, isSome_update]

/-- Whatever the bindings, those kept were among the ones given. -/
theorem mem_ofList {l : List (κ × α)} {e : κ × α} (member : e ∈ (ofList l).entries) : e ∈ l :=
  (get?_update (mem_entries.mp member)).resolve_right (by simp)

theorem mem_values {d : Dict κ α} {value : α} : value ∈ d.values ↔ ∃ key, d.get? key = some value := by
  simp only [values, List.mem_map, Prod.exists, exists_eq_right, mem_entries]

omit [DecidableEq κ] in
theorem countP_keys (d : Dict κ α) (test : α → Bool) :
    d.values.countP test = ((d.entries.filter fun e => test e.2).map Prod.fst).length := by
  rw [values, List.countP_map, List.countP_eq_length_filter, List.length_map]
  rfl

/-- A count does not grow where whatever passes the one test passes the other under the same key. -/
theorem countP_le {β : Type w} {d : Dict κ α} {e : Dict κ β} {test : α → Bool} {test' : β → Bool}
    (under : ∀ key value, e.get? key = some value → test' value →
      ∃ before, d.get? key = some before ∧ test before) :
    e.values.countP test' ≤ d.values.countP test := by
  rw [countP_keys, countP_keys]
  have distinct : ((e.entries.filter fun x => test' x.2).map Prod.fst).Nodup :=
    e.distinct.sublist (List.filter_sublist.map Prod.fst)
  refine (List.subperm_of_subset distinct fun key member => ?_).length_le
  obtain ⟨⟨_, value⟩, passes, rfl⟩ := List.mem_map.mp member
  obtain ⟨stored, passes⟩ := List.mem_filter.mp passes
  obtain ⟨before, present, passed⟩ := under _ value (mem_entries.mp stored) passes
  exact List.mem_map.mpr ⟨(_, before), List.mem_filter.mpr ⟨mem_entries.mpr present, passed⟩, rfl⟩

section Total

variable {M : Type w} [AddCommGroup M]

/-- The sum of a quantity over all bindings. -/
def total (d : Dict κ α) (f : α → M) : M := (d.entries.map fun e => f e.2).sum

/-- The sum of a quantity that depends on the keys as well. -/
def weigh (d : Dict κ α) (f : κ → α → M) : M := (d.entries.map fun e => f e.1 e.2).sum

private theorem sum_put (l : List (κ × α)) (key : κ) (value : α) (f : κ → α → M) :
    ((put l key value).map fun e => f e.1 e.2).sum + ((find l key).map (f key)).getD 0 =
      (l.map fun e => f e.1 e.2).sum + f key value := by
  induction l with
  | nil => simp [put, find]
  | cons e rest ih =>
    obtain ⟨k, a⟩ := e
    by_cases here : k = key
    · simp [put, find, here]; abel
    · simp only [put, if_neg here, find, List.map_cons, List.sum_cons]
      rw [add_assoc, ih, add_assoc]

/-- Assignment changes the total by the new value less the one it replaces. -/
theorem total_set (d : Dict κ α) (key : κ) (value : α) (f : α → M) :
    (d.set key value).total f + ((d.get? key).map f).getD 0 = d.total f + f value :=
  sum_put d.entries key value fun _ => f

theorem weigh_set (d : Dict κ α) (key : κ) (value : α) (f : κ → α → M) :
    (d.set key value).weigh f + ((d.get? key).map (f key)).getD 0 = d.weigh f + f key value :=
  sum_put d.entries key value f

private theorem sum_put_congr {l : List (κ × α)} (distinct : (l.map Prod.fst).Nodup) {key : κ} {value : α}
    {f g : κ → α → M} (others : ∀ k a, k ≠ key → g k a = f k a)
    (own : g key value = ((find l key).map (f key)).getD 0) :
    ((put l key value).map fun e => g e.1 e.2).sum = (l.map fun e => f e.1 e.2).sum := by
  induction l with
  | nil => simpa [put, find] using own
  | cons e rest ih =>
    obtain ⟨k, a⟩ := e
    obtain ⟨fresh, distinct⟩ := List.nodup_cons.mp distinct
    by_cases here : k = key
    · subst here
      have same : rest.map (fun e => g e.1 e.2) = rest.map fun e => f e.1 e.2 :=
        List.map_congr_left fun e member => others e.1 e.2 fun again => fresh (List.mem_map.mpr ⟨e, member, again⟩)
      simp only [find, if_pos, Option.map_some, Option.getD_some] at own
      simp only [put, if_pos, List.map_cons, List.sum_cons, same, own]
    · simp only [find, if_neg here] at own
      simp only [put, if_neg here, List.map_cons, List.sum_cons]
      rw [others k a here, ih distinct own]

/-- An assignment that another weight at the key makes up for. -/
theorem weigh_set_congr {d : Dict κ α} {key : κ} {value : α} {f g : κ → α → M}
    (others : ∀ k a, k ≠ key → g k a = f k a) (own : g key value = ((d.get? key).map (f key)).getD 0) :
    (d.set key value).weigh g = d.weigh f :=
  sum_put_congr d.distinct others own

theorem total_set_of_get {d : Dict κ α} {key : κ} {old : α} (present : d.get? key = some old)
    (value : α) (f : α → M) : (d.set key value).total f = d.total f - f old + f value := by
  have change := d.total_set key value f
  simp only [present, Option.map_some, Option.getD_some] at change
  rw [← eq_sub_iff_add_eq] at change
  rw [change]; abel

/-- Removal takes the value it removes out of the total. -/
theorem total_erase {d : Dict κ α} {key : κ} {old : α} (present : d.get? key = some old) (f : α → M) :
    (d.erase key).total f = d.total f - f old := by
  obtain ⟨before, after, split⟩ := List.append_of_mem (find_mem present)
  have distinct := d.distinct
  rw [split, List.map_append, List.map_cons, List.nodup_middle, List.nodup_cons] at distinct
  have others : ∀ e ∈ before ++ after, e.1 ≠ key := by
    intro e member same
    have here : e.1 ∈ (before ++ after).map Prod.fst := List.mem_map_of_mem member
    rw [List.map_append] at here
    exact distinct.1 (same ▸ here)
  have kept : (d.erase key).entries = before ++ after := by
    change d.entries.filter (fun e => e.1 ≠ key) = before ++ after
    rw [split, List.filter_append, List.filter_cons_of_neg (by simp), ← List.filter_append]
    exact List.filter_eq_self.mpr fun e member => by simpa using others e member
  unfold total
  rw [kept, split]
  simp only [List.map_append, List.map_cons, List.sum_append, List.sum_cons]
  abel

theorem total_congr {d : Dict κ α} {f g : α → M}
    (same : ∀ key value, d.get? key = some value → f value = g value) : d.total f = d.total g := by
  unfold total
  congr 1
  exact List.map_congr_left fun e member => same e.1 e.2 (mem_entries.mp member)

omit [DecidableEq κ] in
/-- The sum over the values that pass a test. -/
theorem total_filter (d : Dict κ α) (test : α → Bool) (f : α → M) :
    ((d.values.filter test).map f).sum = d.total fun value => if test value then f value else 0 := by
  unfold total values
  induction d.entries with
  | nil => rfl
  | cons e rest ih =>
    simp only [List.map_cons, List.filter_cons, List.sum_cons]
    split
    next => simp [ih]
    next => simpa using ih

omit [DecidableEq κ] in
theorem countP_values (d : Dict κ α) (test : α → Bool) :
    (d.values.countP test : ℤ) = d.total fun value => if test value then 1 else 0 := by
  rw [← d.total_filter test fun _ => 1, List.countP_eq_length_filter]
  simp

/-- Assignment over an old value changes a count by the two values' tests. -/
theorem countP_set_of_get {d : Dict κ α} {key : κ} {old : α} (present : d.get? key = some old)
    (value : α) (test : α → Bool) :
    ((d.set key value).values.countP test : ℤ) =
      d.values.countP test - (if test old then 1 else 0) + if test value then 1 else 0 := by
  rw [countP_values, countP_values, total_set_of_get present]

/-- A default whose measure vanishes leaves every total alone. -/
theorem total_setDefault (d : Dict κ α) (key : κ) (value : α) (f : α → M) (zero : f value = 0) :
    (d.setDefault key value).total f = d.total f := by
  unfold setDefault
  cases present : d.get? key with
  | some old => rfl
  | none =>
    have change := d.total_set key value f
    simpa [present, zero] using change

omit [DecidableEq κ] in
@[simp] theorem total_empty (f : α → M) : (empty : Dict κ α).total f = 0 := by simp [total, empty]

omit [DecidableEq κ] in
theorem total_perm {d e : Dict κ α} (perm : d.entries.Perm e.entries) (f : α → M) :
    d.total f = e.total f :=
  (perm.map _).sum_eq

end Total

theorem get?_perm {d e : Dict κ α} (perm : d.entries.Perm e.entries) (key : κ) :
    d.get? key = e.get? key := by
  apply Option.ext
  intro value
  rw [← mem_entries, ← mem_entries, perm.mem_iff]

/-- Dictionaries that answer alike are the same. -/
theorem same_of_get? {d e : Dict κ α} (alike : ∀ key, d.get? key = e.get? key) : d.Same e := by
  refine (List.perm_ext_iff_of_nodup d.distinct.of_map e.distinct.of_map).mpr fun entry => ?_
  rw [mem_entries, mem_entries, alike]

section Fill

/-- Insert only what has no binding yet. The keys created come with it, in order. -/
def fill (d : Dict κ α) : List (κ × α) → Dict κ α × List κ
  | [] => (d, [])
  | (key, value) :: rest =>
    match d.get? key with
    | some _ => d.fill rest
    | none => (((d.set key value).fill rest).1, key :: ((d.set key value).fill rest).2)

theorem fill_present {d : Dict κ α} {key : κ} {old value : α} (present : d.get? key = some old)
    (rest : List (κ × α)) : d.fill ((key, value) :: rest) = d.fill rest := by
  rw [fill, present]

theorem fill_absent {d : Dict κ α} {key : κ} (absent : d.get? key = none) (value : α)
    (rest : List (κ × α)) :
    d.fill ((key, value) :: rest) =
      (((d.set key value).fill rest).1, key :: ((d.set key value).fill rest).2) := by
  rw [fill, absent]

theorem fill_created_le (d : Dict κ α) (rows : List (κ × α)) :
    (d.fill rows).2.length ≤ rows.length := by
  induction rows generalizing d with
  | nil => exact Nat.le_refl _
  | cons row rest ih =>
    obtain ⟨k, v⟩ := row
    cases found : d.get? k with
    | some old =>
      rw [fill_present found]
      exact (ih d).trans (Nat.le_succ _)
    | none =>
      rw [fill_absent found]
      exact Nat.succ_le_succ (ih _)

theorem fill_size (d : Dict κ α) (rows : List (κ × α)) :
    (d.fill rows).1.entries.length = d.entries.length + (d.fill rows).2.length := by
  induction rows generalizing d with
  | nil => rfl
  | cons row rest ih =>
    obtain ⟨k, v⟩ := row
    cases found : d.get? k with
    | some old =>
      rw [fill_present found]
      exact ih d
    | none =>
      have grown : (d.set k v).entries.length = d.entries.length + 1 := by
        rw [show (d.set k v).entries = d.entries ++ [(k, v)] from put_fresh (get?_none_iff.mp found) v]
        simp
      rw [fill_absent found, ih, grown, List.length_cons]
      omega

theorem fill_mem {d : Dict κ α} {rows : List (κ × α)} {e : κ × α}
    (member : e ∈ (d.fill rows).1.entries) : e ∈ d.entries ∨ e ∈ rows := by
  induction rows generalizing d with
  | nil => exact .inl member
  | cons row rest ih =>
    obtain ⟨k, v⟩ := row
    cases found : d.get? k with
    | some old =>
      rw [fill_present found] at member
      exact (ih member).imp_right (List.mem_cons_of_mem _)
    | none =>
      rw [fill_absent found] at member
      rcases ih member with before | later
      · rcases put_mem before with rfl | old
        · exact .inr List.mem_cons_self
        · exact .inl old
      · exact .inr (List.mem_cons_of_mem _ later)

/-- Rows that are all bound already change nothing. -/
theorem fill_bound {d : Dict κ α} {rows : List (κ × α)} (bound : ∀ row ∈ rows, d.get? row.1 ≠ none) :
    d.fill rows = (d, []) := by
  induction rows with
  | nil => rfl
  | cons row rest ih =>
    obtain ⟨k, v⟩ := row
    obtain ⟨old, present⟩ := Option.ne_none_iff_exists'.mp (bound _ List.mem_cons_self)
    rw [fill_present present]
    exact ih fun row member => bound row (List.mem_cons_of_mem _ member)

/-- Fresh rows of distinct keys are all appended. -/
theorem fill_fresh {d : Dict κ α} {rows : List (κ × α)} (distinct : (rows.map Prod.fst).Nodup)
    (fresh : ∀ row ∈ rows, d.get? row.1 = none) :
    (d.fill rows).1.entries = d.entries ++ rows ∧ (d.fill rows).2 = rows.map Prod.fst := by
  induction rows generalizing d with
  | nil => simp [fill]
  | cons row rest ih =>
    obtain ⟨k, v⟩ := row
    have absent := fresh _ List.mem_cons_self
    simp only [List.map_cons, List.nodup_cons] at distinct
    have later : ∀ row ∈ rest, (d.set k v).get? row.1 = none := by
      intro row member
      have apart : k ≠ row.1 := by
        rintro rfl
        exact distinct.1 (List.mem_map_of_mem member)
      rw [get?_set, if_neg apart]
      exact fresh row (List.mem_cons_of_mem _ member)
    obtain ⟨entries, created⟩ := ih distinct.2 later
    have appended : (d.set k v).entries = d.entries ++ [(k, v)] :=
      put_fresh (get?_none_iff.mp absent) v
    rw [fill_absent absent, entries, created, appended]
    simp

end Fill

end Dict
