import Phrasebook.Value

/-!
# Arguments

The named values that a caller hands over, in the order in which their names
were first inserted. A later value for a name takes the place of the earlier
one and keeps its position, so each name is listed once.
-/

namespace Phrasebook

-- ---------------------------------------------------------------------------
-- Entries
-- ---------------------------------------------------------------------------

section

variable {α : Type} {key : String} {a : α} {entries : List (String × α)}

theorem lookup_cons_eq_ite (key : String) (entry : String × α) (entries : List (String × α)) :
    (entry :: entries).lookup key = if entry.1 = key then some entry.2 else entries.lookup key := by
  obtain ⟨other, a⟩ := entry
  by_cases h : other = key
  · simp [h]
  · simp [List.lookup_cons, beq_eq_false_iff_ne.mpr (Ne.symm h), h]

theorem lookup_eq_some_iff_mem (h : (entries.map Prod.fst).Nodup) :
    entries.lookup key = some a ↔ (key, a) ∈ entries := by
  induction entries with
  | nil => simp
  | cons entry rest ih =>
    obtain ⟨fresh, distinct⟩ := List.nodup_cons.mp h
    rw [lookup_cons_eq_ite]
    by_cases same : entry.1 = key
    · have absent : (key, a) ∉ rest := fun mem => fresh (same ▸ List.mem_map_of_mem mem)
      simp [same, absent, Prod.ext_iff, eq_comm]
    · have other : (key, a) ≠ entry := fun eq => same (eq ▸ rfl)
      simpa [same, other] using ih distinct

theorem lookup_eq_none_iff_notMem : entries.lookup key = none ↔ key ∉ entries.map Prod.fst := by
  simp only [List.lookup_eq_none_iff, bne_iff_ne, List.mem_map, not_exists, not_and]
  exact forall_congr' fun entry => forall_congr' fun _ => not_congr eq_comm

end

-- ---------------------------------------------------------------------------
-- Entries in the order of insertion
-- ---------------------------------------------------------------------------

/-- Puts a value under a name in a list of entries, and says what it replaced. -/
def putEntry (name : String) (value : Value) :
    List (String × Value) → Option Value × List (String × Value)
  | [] => (none, [(name, value)])
  | entry :: rest =>
    if entry.1 = name then (some entry.2, (name, value) :: rest)
    else ((putEntry name value rest).1, entry :: (putEntry name value rest).2)

theorem mem_names_putEntry {name other : String} {value : Value}
    {entries : List (String × Value)} :
    other ∈ (putEntry name value entries).2.map Prod.fst ↔
      other = name ∨ other ∈ entries.map Prod.fst := by
  induction entries with
  | nil => simp [putEntry]
  | cons entry rest ih =>
    unfold putEntry
    split
    · next h => simp [h]
    · rw [List.map_cons, List.mem_cons, ih, List.map_cons, List.mem_cons]
      exact or_left_comm

theorem nodup_names_putEntry {name : String} {value : Value} {entries : List (String × Value)}
    (h : (entries.map Prod.fst).Nodup) :
    ((putEntry name value entries).2.map Prod.fst).Nodup := by
  induction entries with
  | nil => simp [putEntry]
  | cons entry rest ih =>
    rw [List.map_cons, List.nodup_cons] at h
    unfold putEntry
    split
    · next same => simpa [← same] using h
    · next other =>
      rw [List.map_cons, List.nodup_cons, mem_names_putEntry]
      exact ⟨fun found => found.elim other h.1, ih h.2⟩

theorem fst_putEntry {name : String} {value : Value} {entries : List (String × Value)} :
    (putEntry name value entries).1 = entries.lookup name := by
  induction entries with
  | nil => rfl
  | cons entry rest ih =>
    rw [lookup_cons_eq_ite, putEntry]
    split
    · rfl
    · exact ih

theorem lookup_putEntry {name other : String} {value : Value}
    {entries : List (String × Value)} :
    (putEntry name value entries).2.lookup other =
      if other = name then some value else entries.lookup other := by
  induction entries with
  | nil => simp [putEntry, lookup_cons_eq_ite, eq_comm]
  | cons entry rest ih =>
    unfold putEntry
    split
    · next same =>
      simp only [lookup_cons_eq_ite, same]
      split <;> simp_all [eq_comm]
    · next different =>
      simp only [lookup_cons_eq_ite, ih]
      split
      · next found => simp [← found, different]
      · rfl

/-- Named values, each name once, in the order of first insertion. -/
structure Arguments where
  entries : List (String × Value)
  distinct : (entries.map Prod.fst).Nodup

namespace Arguments

def empty : Arguments := ⟨[], .nil⟩

instance : Inhabited Arguments := ⟨empty⟩

def exchange (arguments : Arguments) (name : String) (value : Value) :
    Option Value × Arguments :=
  ((putEntry name value arguments.entries).1,
    ⟨(putEntry name value arguments.entries).2, nodup_names_putEntry arguments.distinct⟩)

def insert (arguments : Arguments) (name : String) (value : Value) : Arguments :=
  (arguments.exchange name value).2

def ofList (entries : List (String × Value)) : Arguments :=
  entries.foldl (fun arguments entry => arguments.insert entry.1 entry.2) empty

def get? (arguments : Arguments) (name : String) : Option Value :=
  arguments.entries.lookup name

def contains (arguments : Arguments) (name : String) : Bool := (arguments.get? name).isSome

def names (arguments : Arguments) : List String := arguments.entries.map Prod.fst

def size (arguments : Arguments) : Nat := arguments.entries.length

def isEmpty (arguments : Arguments) : Bool := arguments.entries.isEmpty

theorem fst_exchange {arguments : Arguments} {name : String} {value : Value} :
    (arguments.exchange name value).1 = arguments.get? name :=
  fst_putEntry

theorem get?_insert {arguments : Arguments} {name other : String} {value : Value} :
    (arguments.insert name value).get? other =
      if other = name then some value else arguments.get? other :=
  lookup_putEntry

def missingMessage (name : String) : String := "no parameter named '" ++ name ++ "'"

/-- The value under a name that the caller takes for granted. -/
def get (arguments : Arguments) (name : String) : Except String Value :=
  match arguments.get? name with
  | some value => .ok value
  | none => .error (missingMessage name)

instance : BEq Arguments := ⟨fun a b => a.entries == b.entries⟩

end Arguments

end Phrasebook
