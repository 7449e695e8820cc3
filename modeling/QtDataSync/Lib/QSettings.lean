import Mathlib.Data.List.Basic
import Mathlib.Tactic.Common

/-!
# Lib.QSettings — values under keys with groups

A slash in a key separates groups, so a value is stored under a path.  Groups are entered and left, and every key is
relative to the current one.  No name in a path has a slash in it, and therefore no child group or child key has one
(`notMem_childGroups`).
-/

namespace QSettings

/-- The names between slashes. -/
def splitSlash (name : List Char) : List Char → List (List Char)
  | [] => [name]
  | c :: l => if c = '/' then name :: splitSlash [] l else splitSlash (name ++ [c]) l

/-- The path of a key: repeated slashes, and those at the ends, are left out. -/
def normalizedKey (key : String) : List String :=
  ((splitSlash [] key.toList).filter (· ≠ [])).map String.ofList

/-- A name of a group or of a value. -/
def Slashless (path : List String) : Prop := ∀ name ∈ path, '/' ∉ name.toList

theorem slashless_splitSlash {name : List Char} (hname : '/' ∉ name) (l : List Char) :
    ∀ part ∈ splitSlash name l, '/' ∉ part := by
  induction l generalizing name with
  | nil =>
    intro part hpart
    rw [splitSlash, List.mem_singleton] at hpart
    rw [hpart]
    exact hname
  | cons c l ih =>
    rw [splitSlash]
    split_ifs with hc
    · rintro part (- | ⟨-, hpart⟩)
      · exact hname
      · exact ih (List.not_mem_nil) part hpart
    · refine ih (fun hmem => ?_)
      rcases List.mem_append.mp hmem with hmem | hmem
      · exact hname hmem
      · exact hc (List.mem_singleton.mp hmem).symm

theorem slashless_normalizedKey (key : String) : Slashless (normalizedKey key) := by
  intro name hname
  obtain ⟨part, hpart, rfl⟩ := List.mem_map.mp hname
  rw [String.toList_ofList]
  exact slashless_splitSlash List.not_mem_nil _ part (List.mem_filter.mp hpart).1

end QSettings

/-- The values with their paths, and the groups that have been entered, the last one first. -/
structure QSettings (V : Type) where
  entries : List (List String × V)
  groups : List (List String)
  slashless : ∀ entry ∈ entries, QSettings.Slashless entry.1
  slashless_groups : ∀ group ∈ groups, QSettings.Slashless group

namespace QSettings

variable {V : Type}

/-- The path of the current group. -/
def group (s : QSettings V) : List String := s.groups.reverse.flatten

def path (s : QSettings V) (key : String) : List String := s.group ++ normalizedKey key

theorem slashless_path (s : QSettings V) (key : String) : Slashless (s.path key) := by
  intro name hname
  rcases List.mem_append.mp hname with hname | hname
  · obtain ⟨group, hgroup, hname⟩ := List.mem_flatten.mp hname
    exact s.slashless_groups group (List.mem_reverse.mp hgroup) name hname
  · exact slashless_normalizedKey key name hname

def beginGroup (s : QSettings V) (key : String) : QSettings V where
  entries := s.entries
  groups := normalizedKey key :: s.groups
  slashless := s.slashless
  slashless_groups := by
    rintro group (- | ⟨-, hgroup⟩)
    · exact slashless_normalizedKey key
    · exact s.slashless_groups group hgroup

def endGroup (s : QSettings V) : QSettings V where
  entries := s.entries
  groups := s.groups.tail
  slashless := s.slashless
  slashless_groups := fun group hgroup => s.slashless_groups group (List.mem_of_mem_tail hgroup)

/-- The entries that are kept when others are removed. -/
def filter (s : QSettings V) (keep : List String → Bool) : QSettings V where
  entries := s.entries.filter fun entry => keep entry.1
  groups := s.groups
  slashless := fun entry hentry => s.slashless entry (List.mem_filter.mp hentry).1
  slashless_groups := s.slashless_groups

/-- An empty key sets nothing. -/
def setValue (s : QSettings V) (key : String) (value : V) : QSettings V :=
  if normalizedKey key = [] then s
  else
    { entries := (s.path key, value) :: (s.filter (· ≠ s.path key)).entries
      groups := s.groups
      slashless := by
        rintro entry (- | ⟨-, hentry⟩)
        · exact s.slashless_path key
        · exact (s.filter _).slashless entry hentry
      slashless_groups := s.slashless_groups }

def lookup (s : QSettings V) (path : List String) : Option V := s.entries.lookup path

/-- `none` is an invalid value. -/
def value (s : QSettings V) (key : String) : Option V :=
  if normalizedKey key = [] then none else s.lookup (s.path key)

/-- The value of the key and the values of its group are removed. -/
def remove (s : QSettings V) (key : String) : QSettings V := s.filter fun path => !(s.path key).isPrefixOf path

/-- What there is in the current group. -/
def children (s : QSettings V) : List (List String) :=
  (s.entries.filter fun entry => s.group.isPrefixOf entry.1).map fun entry => entry.1.drop s.group.length

/-- Only the groups that are directly in the current one. -/
def childGroups (s : QSettings V) : List String :=
  s.children.filterMap fun path => match path with
    | name :: _ :: _ => some name
    | _ => none

/-- Only the values that are directly in the current group. -/
def childKeys (s : QSettings V) : List String :=
  s.children.filterMap fun path => match path with
    | [name] => some name
    | _ => none

theorem notMem_childGroups (s : QSettings V) {name : String} (h : '/' ∈ name.toList) : name ∉ s.childGroups := by
  intro hmem
  obtain ⟨path, hpath, hname⟩ := List.mem_filterMap.mp hmem
  obtain ⟨entry, hentry, rfl⟩ := List.mem_map.mp hpath
  have hslashless := s.slashless entry (List.mem_filter.mp hentry).1
  rcases hdrop : entry.1.drop s.group.length with - | ⟨first, - | ⟨second, rest⟩⟩
  · rw [hdrop] at hname
    cases hname
  · rw [hdrop] at hname
    cases hname
  · rw [hdrop] at hname
    have hfirst : first = name := Option.some.inj hname
    have hmem : name ∈ entry.1.drop s.group.length := by
      rw [hdrop, hfirst]
      exact List.mem_cons_self
    exact hslashless name (List.mem_of_mem_drop hmem) h

/-! ### Values that are read again -/

@[simp] theorem groups_setValue (s : QSettings V) (key : String) (value : V) :
    (s.setValue key value).groups = s.groups := by
  unfold setValue
  split_ifs
  · rfl
  · rfl

@[simp] theorem group_setValue (s : QSettings V) (key : String) (value : V) : (s.setValue key value).group = s.group := by
  rw [group, groups_setValue, group]

@[simp] theorem group_remove (s : QSettings V) (key : String) : (s.remove key).group = s.group := rfl

@[simp] theorem group_beginGroup (s : QSettings V) (key : String) : (s.beginGroup key).group = s.path key := by
  rw [group, path, group, beginGroup, List.reverse_cons, List.flatten_append, List.flatten_singleton]

@[simp] theorem lookup_beginGroup (s : QSettings V) (key : String) (path : List String) :
    (s.beginGroup key).lookup path = s.lookup path := rfl

@[simp] theorem lookup_endGroup (s : QSettings V) (path : List String) : s.endGroup.lookup path = s.lookup path := rfl

theorem lookup_filter_of_keep (entries : List (List String × V)) (keep : List String → Bool) {path : List String}
    (h : keep path = true) : (entries.filter fun entry => keep entry.1).lookup path = entries.lookup path := by
  induction entries with
  | nil => rfl
  | cons entry entries ih =>
    obtain ⟨p, v⟩ := entry
    by_cases hp : path = p
    · subst hp
      rw [List.filter_cons, if_pos h, List.lookup_cons_self, List.lookup_cons_self]
    · have hne : (path == p) = false := beq_eq_false_iff_ne.mpr hp
      rw [List.filter_cons, List.lookup_cons, hne]
      split_ifs
      · rw [List.lookup_cons, hne, ih]
      · exact ih

theorem lookup_setValue_self (s : QSettings V) (key : String) (hkey : normalizedKey key ≠ []) (value : V) :
    (s.setValue key value).lookup (s.path key) = some value := by
  rw [setValue, if_neg hkey]
  exact List.lookup_cons_self

/-- A key that is set has the value at its path. -/
theorem value_eq_some (s : QSettings V) {key : String} {v : V} (hkey : normalizedKey key ≠ [])
    (h : s.lookup (s.path key) = some v) : s.value key = some v := by
  rw [value, if_neg hkey, h]

theorem lookup_setValue_of_ne (s : QSettings V) {key : String} (value : V) {path : List String}
    (hpath : path ≠ s.path key) : (s.setValue key value).lookup path = s.lookup path := by
  unfold setValue
  split_ifs
  · rfl
  · have hne : (path == s.path key) = false := beq_eq_false_iff_ne.mpr hpath
    show ((s.path key, value) :: (s.filter (· ≠ s.path key)).entries).lookup path = s.entries.lookup path
    rw [List.lookup_cons, hne]
    exact lookup_filter_of_keep s.entries (· ≠ s.path key) (decide_eq_true hpath)

end QSettings
