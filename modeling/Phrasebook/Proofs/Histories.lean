import Mathlib.Data.Finset.Card
import Phrasebook.Proofs.Repetitions

/-!
# Histories of insertions

Arguments are decided by the values that were put in one after another, in
whichever ways this was done (`Built.eq_ofList`). Each name is listed where it was
first put in, with the value that was put in last, and everything that can be read
off arguments says the same (`Arguments.KeepTo`). A name that is there keeps its
place, so it is filled in when it was before (`entries_insert_of_mem`).
-/

namespace Phrasebook

-- ---------------------------------------------------------------------------
-- The last value of a key
-- ---------------------------------------------------------------------------

section

variable {α : Type} {history : List (String × α)} {key : String} {a : α}

/-- The value that was put under a key after all others. -/
def Latest (history : List (String × α)) (key : String) (a : α) : Prop :=
  ∃ before after, history = before ++ (key, a) :: after ∧ key ∉ after.map Prod.fst

theorem not_latest_nil : ¬ Latest [] key a := by
  simp [Latest]

theorem latest_cons {entry : String × α} :
    Latest (entry :: history) key a ↔
      Latest history key a ∨ (key, a) = entry ∧ key ∉ history.map Prod.fst := by
  constructor
  · rintro ⟨before, after, heq, hafter⟩
    cases before with
    | nil =>
      obtain ⟨rfl, rfl⟩ := List.cons.inj heq
      exact .inr ⟨rfl, hafter⟩
    | cons first before =>
      obtain ⟨-, rfl⟩ := List.cons.inj heq
      exact .inl ⟨before, after, rfl, hafter⟩
  · rintro (⟨before, after, rfl, hafter⟩ | ⟨rfl, hafter⟩)
    · exact ⟨entry :: before, after, rfl, hafter⟩
    · exact ⟨[], history, rfl, hafter⟩

theorem latest_iff : Latest history key a ↔ history.reverse.lookup key = some a := by
  rw [List.lookup_eq_some_iff]
  constructor
  · rintro ⟨before, after, rfl, hafter⟩
    refine ⟨after.reverse, before.reverse, by simp, fun entry hentry => ?_⟩
    have hne : key ≠ entry.1 := fun heq =>
      hafter (heq ▸ List.mem_map_of_mem (List.mem_reverse.mp hentry))
    simpa using hne
  · rintro ⟨after, before, hreverse, hafter⟩
    refine ⟨before.reverse, after.reverse, by simpa using congrArg List.reverse hreverse, ?_⟩
    intro hmem
    obtain ⟨entry, hentry, hkey⟩ := List.mem_map.mp hmem
    simpa [hkey] using hafter entry (List.mem_reverse.mp hentry)

theorem exists_latest_iff : (∃ a, Latest history key a) ↔ key ∈ history.map Prod.fst := by
  simp only [latest_iff, ← Option.isSome_iff_exists, List.lookup_isSome_iff, List.mem_reverse,
    beq_iff_eq, List.mem_map]
  exact exists_congr fun entry => and_congr_right fun _ => eq_comm

theorem lookup_filter (entries : List (String × α)) (key : String) :
    (entries.filter (·.1 == key)).lookup key = entries.lookup key := by
  induction entries with
  | nil => rfl
  | cons entry entries ih =>
    by_cases h : entry.1 = key <;> simp [h, lookup_cons_eq_ite, ih]

theorem latest_congr {history' : List (String × α)}
    (h : (history.filter fun entry => entry.1 == key) =
      history'.filter fun entry => entry.1 == key) :
    Latest history key a ↔ Latest history' key a := by
  rw [latest_iff, latest_iff, ← lookup_filter, ← lookup_filter history'.reverse,
    List.filter_reverse, List.filter_reverse, h]

theorem length_eq_card {list keys : List String} (h : list.Nodup)
    (hmem : ∀ key, key ∈ list ↔ key ∈ keys) : list.length = keys.toFinset.card := by
  have hsame : list.toFinset = keys.toFinset := Finset.ext fun key => by simp [hmem]
  rw [← hsame, List.toFinset_card_of_nodup h]

end

-- ---------------------------------------------------------------------------
-- One insertion
-- ---------------------------------------------------------------------------

theorem putEntry_of_mem {entries : List (String × Value)} (hd : (entries.map Prod.fst).Nodup)
    (h : name ∈ entries.map Prod.fst) :
    (putEntry name value entries).2 =
      entries.map fun entry => if entry.1 = name then (name, value) else entry := by
  induction entries with
  | nil => simp at h
  | cons entry rest ih =>
    obtain ⟨hfresh, hrest⟩ := List.nodup_cons.mp hd
    by_cases hname : entry.1 = name
    · have hother : ∀ other ∈ rest, (if other.1 = name then (name, value) else other) = other := by
        refine fun other hother => if_neg fun heq => hfresh ?_
        rw [hname, ← heq]
        exact List.mem_map_of_mem hother
      have hsame := (List.map_congr_left hother).trans (List.map_id' rest)
      simp [putEntry, hname, hsame]
    · have hmem : name ∈ rest.map Prod.fst := (List.mem_cons.mp h).resolve_left (Ne.symm hname)
      simp [putEntry, hname, ih hrest hmem]

theorem putEntry_of_notMem {entries : List (String × Value)} (h : name ∉ entries.map Prod.fst) :
    (putEntry name value entries).2 = entries ++ [(name, value)] := by
  induction entries with
  | nil => rfl
  | cons entry rest ih =>
    rw [List.map_cons, List.mem_cons, not_or] at h
    simp [putEntry, Ne.symm h.1, ih h.2]

namespace Arguments

/-- Arguments that come of putting in these values, one after another, in any of the ways to do
this. -/
inductive Built : List (String × Value) → Arguments → Prop
  | empty : Built [] .empty
  | ofList (list : List (String × Value)) : Built list (.ofList list)
  | insert (h : Built history arguments) (name : String) (value : Value) :
    Built (history ++ [(name, value)]) (arguments.insert name value)
  | exchange (h : Built history arguments) (name : String) (value : Value) :
    Built (history ++ [(name, value)]) (arguments.exchange name value).2

/-- All that is read off arguments follows from a history: which names there are and where, and
which value each of them has. -/
structure KeepTo (history : List (String × Value)) (arguments : Arguments) : Prop where
  names : arguments.names = (history.map Prod.fst).eraseDups
  entries : ∀ name value, (name, value) ∈ arguments.entries ↔ Latest history name value
  size : arguments.size = (history.map Prod.fst).toFinset.card
  isEmpty : arguments.isEmpty ↔ history = []
  get? : ∀ name value, arguments.get? name = some value ↔ Latest history name value
  get?_none : ∀ name, arguments.get? name = none ↔ name ∉ history.map Prod.fst
  contains : ∀ name, arguments.contains name ↔ name ∈ history.map Prod.fst
  get_ok : ∀ name value, arguments.get name = .ok value ↔ Latest history name value
  get_error : ∀ name reason, arguments.get name = .error reason ↔
    arguments.get? name = none ∧ reason = missingMessage name

variable {history : List (String × Value)} {arguments : Arguments} {name : String} {value : Value}

theorem entries_insert_of_mem (h : name ∈ arguments.names) :
    (arguments.insert name value).entries =
      arguments.entries.map fun entry => if entry.1 = name then (name, value) else entry :=
  putEntry_of_mem arguments.distinct h

theorem names_insert (arguments : Arguments) (name : String) (value : Value) :
    (arguments.insert name value).names =
      arguments.names ++ if name ∈ arguments.names then [] else [name] := by
  split
  · next h =>
    rw [names, entries_insert_of_mem h, List.map_map, List.append_nil]
    refine List.map_congr_left fun entry _ => ?_
    by_cases hname : entry.1 = name <;> simp [hname]
  · next h =>
    have hentries : (arguments.insert name value).entries = arguments.entries ++ [(name, value)] :=
      putEntry_of_notMem h
    rw [names, hentries, List.map_append]
    rfl

-- ---------------------------------------------------------------------------
-- All insertions
-- ---------------------------------------------------------------------------

theorem ofList_concat (history : List (String × Value)) (entry : String × Value) :
    ofList (history ++ [entry]) = (ofList history).insert entry.1 entry.2 :=
  List.foldl_concat ..

theorem names_ofList (history : List (String × Value)) :
    (ofList history).names = (history.map Prod.fst).eraseDups := by
  induction history using List.reverseRecOn with
  | nil => rfl
  | append_singleton history entry ih =>
    rw [ofList_concat, names_insert, ih, List.map_append, List.map_singleton, eraseDups_concat]
    simp only [List.mem_eraseDups]

theorem get?_ofList : (ofList history).get? name = some value ↔ Latest history name value := by
  rw [latest_iff]
  suffices h : (ofList history).get? name = history.reverse.lookup name by rw [h]
  induction history using List.reverseRecOn with
  | nil => rfl
  | append_singleton history entry ih =>
    rw [ofList_concat, get?_insert, ih, List.reverse_append, List.reverse_singleton,
      List.singleton_append, lookup_cons_eq_ite]
    simp only [eq_comm]

theorem Built.eq_ofList (h : Built history arguments) : arguments = .ofList history := by
  induction h with
  | empty => rfl
  | ofList list => rfl
  | insert _ name value ih => rw [ih, ofList_concat]
  | exchange _ name value ih => rw [ih, ofList_concat, Arguments.insert]

theorem mem_entries_iff : (name, value) ∈ arguments.entries ↔ arguments.get? name = some value :=
  (lookup_eq_some_iff_mem arguments.distinct).symm

theorem get_ok_iff : arguments.get name = .ok value ↔ arguments.get? name = some value := by
  rw [get]
  cases arguments.get? name <;> simp

theorem get_error_iff : arguments.get name = .error reason ↔
    arguments.get? name = none ∧ reason = missingMessage name := by
  rw [get]
  cases arguments.get? name <;> simp [eq_comm]

theorem keepTo_ofList (history : List (String × Value)) : KeepTo history (ofList history) := by
  have hnames := names_ofList history
  have hcontains (name : String) :
      (ofList history).contains name ↔ name ∈ history.map Prod.fst := by
    simp only [contains, Option.isSome_iff_exists, get?_ofList, exists_latest_iff]
  have hsize : (ofList history).size = (history.map Prod.fst).toFinset.card := by
    have hlength : (ofList history).names.length = (history.map Prod.fst).toFinset.card :=
      length_eq_card (ofList history).distinct fun name => by
        rw [hnames, List.mem_eraseDups]
    rwa [names, List.length_map] at hlength
  exact {
    names := hnames
    entries _ _ := mem_entries_iff.trans get?_ofList
    size := hsize
    isEmpty := by
      rw [isEmpty, List.isEmpty_iff_length_eq_zero, ← size, hsize]
      simp
    get? _ _ := get?_ofList
    get?_none name := by rw [← hcontains, contains]; simp
    contains := hcontains
    get_ok _ _ := get_ok_iff.trans get?_ofList
    get_error _ _ := get_error_iff }

/-- Arguments follow from what was put in, and each insertion says what it took the place of. To
put in a name once more changes neither the names nor the order in which they are filled in. -/
theorem built_keeps_to_history (h : Built history arguments) :
    KeepTo history arguments ∧
      (∀ name value, (arguments.exchange name value).1 = arguments.get? name) ∧
      ∀ name ∈ arguments.names, ∀ value,
        (arguments.insert name value).names = arguments.names ∧
        ∀ t : Template, t.fill (arguments.insert name value) =
          String.ofList ((arguments.entries.map fun entry =>
            if entry.1 = name then (name, value) else entry).foldl Template.fillOne
              t.source.toList) := by
  refine ⟨h.eq_ofList ▸ keepTo_ofList history, fun _ _ => fst_exchange, fun name hname value => ?_⟩
  refine ⟨by simp [names_insert, hname], fun t => ?_⟩
  rw [Template.fill, entries_insert_of_mem hname]

theorem built_keeps_to_history_mixed :
    let first : List (String × Value) := [("b", .number 1), ("a", .string "x"), ("b", .bool true)]
    let arguments := (((ofList first).insert "c" (.number 2)).exchange "a" (.string "y")).2
    arguments.names = ["b", "a", "c"] ∧ arguments.get? "b" = some (.bool true) ∧
      (arguments.exchange "a" (.number 0)).1 = some (.string "y") ∧
      (arguments.insert "b" (.number 0)).names = arguments.names := by
  intro first arguments
  have hbuilt : Built (first ++ [("c", .number 2)] ++ [("a", .string "y")]) arguments :=
    ((Built.ofList first).insert "c" _).exchange "a" _
  obtain ⟨hkeep, hexchange, hagain⟩ := built_keeps_to_history hbuilt
  have hnames : arguments.names = ["b", "a", "c"] := hkeep.names.trans (by decide +kernel)
  have hb : Latest (first ++ [("c", .number 2)] ++ [("a", .string "y")]) "b" (.bool true) :=
    ⟨[("b", .number 1), ("a", .string "x")], [("c", .number 2), ("a", .string "y")], rfl, by simp⟩
  have ha : Latest (first ++ [("c", .number 2)] ++ [("a", .string "y")]) "a" (.string "y") :=
    ⟨_, [], rfl, by simp⟩
  refine ⟨hnames, (hkeep.get? _ _).mpr hb, (hexchange ..).trans ((hkeep.get? _ _).mpr ha), ?_⟩
  exact (hagain "b" (by simp [hnames]) _).1

end Arguments

end Phrasebook
